import Xv6.Buffer.Step
import Xv6.Custody.References

/-!
# Coherence of the buffer cache

A map from block numbers to contents says what the cache and the disk hold
together.  `Coherent` relates it to the buffers: a valid buffer has the contents of
its block, and where the disk differs from the contents a buffer that is dirty, or
that a process has just changed, is valid for the block.  Such a buffer is never
recycled, since the number of references to a buffer is exact.
-/

namespace Xv6.Buffers

open Xv6.Log Xv6.Redo Xv6.Custody

universe u

variable {P : Type u}

/-- The buffer a process refers to without having its lock. -/
def Pc.pending : Pc → Option Bufno
  | .waiting b | .releasing b => some b
  | .idle | .modified _ => none

/-- The references to a buffer of the process that has its lock. -/
def Buf.owners (buf : Buf P) : Nat :=
  if buf.lock = none then 0 else 1

/-- The block that a buffer is for. -/
def Buf.key (buf : Buf P) : Device × Blockno :=
  (buf.dev, buf.blockno)

theorem Buf.blockno_of_key {buf other : Buf P} (same : buf.key = other.key) :
    buf.blockno = other.blockno :=
  congrArg Prod.snd same

/-- A buffer that agrees with the contents of its block.  Locked and dirty buffers
are valid. -/
structure Buf.Sound (buf : Buf P) (contents : Blockno → Block) : Prop where
  locked : buf.lock ≠ none → buf.valid = true
  dirty : buf.dirty = true → buf.valid = true
  dev : buf.valid = true → buf.dev = rootdev
  data : buf.valid = true → buf.data = contents buf.blockno

theorem Buf.Sound.clean {buf : Buf P} {contents : Blockno → Block} (sound : buf.Sound contents)
    (invalid : buf.valid = false) : buf.dirty = false := by
  by_contra dirty
  have valid := sound.dirty (by simpa using dirty)
  rw [invalid] at valid
  contradiction

namespace View

variable {view target : View P}

/-- The buffer may differ from the disk: it is dirty, or a process has changed it and
not yet called `log_write`. -/
def Stale (view : View P) (b : Bufno) : Prop :=
  (view.buf b).valid = true ∧ ((view.buf b).dirty = true ∨ ∃ p, view.pc p = .modified b)

/-- The buffers of a device are for different blocks. -/
def Distinct (view : View P) : Prop :=
  ∀ b b', (view.buf b).dev ≠ 0 → (view.buf b).dev = (view.buf b').dev →
    (view.buf b).blockno = (view.buf b').blockno → b = b'

/-- The references to a buffer are those of its owner and of the processes that wait
for it or are about to drop it. -/
def Counted [Fintype P] (view : View P) : Prop :=
  ∀ b, (view.buf b).refcnt = (view.buf b).owners + references (fun p => (view.pc p).pending) b

/-- A process that has changed a buffer has its lock. -/
def Guarded (view : View P) : Prop :=
  ∀ p b, view.pc p = .modified b → (view.buf b).lock = some p

/-- The contents of the blocks, as the buffers and the disk represent them. -/
structure Coherent [Fintype P] (view : View P) (contents : Blockno → Block) : Prop where
  unique : view.Distinct
  counted : view.Counted
  held : view.Guarded
  sound : ∀ b, (view.buf b).Sound contents
  disk : ∀ blockno, view.disk blockno ≠ contents blockno →
    ∃ b, (view.buf b).blockno = blockno ∧ view.Stale b

/-! ## Changes of one buffer -/

section

variable [DecidableEq P] {p q : P} {pc : Pc} {b other : Bufno} {buf : Buf P}

theorem key_set (same : buf.key = (view.buf b).key) (other : Bufno) :
    ((view.set p pc b buf).buf other).key = (view.buf other).key := by
  rcases eq_or_ne other b with rfl | ne
  · simp [same]
  · simp [ne]

/-- A change that keeps the block of the buffer keeps the blocks distinct. -/
theorem Distinct.set (distinct : view.Distinct) (same : buf.key = (view.buf b).key) :
    (view.set p pc b buf).Distinct := by
  intro b₁ b₂
  obtain ⟨dev₁, blockno₁⟩ := Prod.mk.inj (key_set (p := p) same b₁)
  obtain ⟨dev₂, blockno₂⟩ := Prod.mk.inj (key_set (p := p) same b₂)
  rw [dev₁, blockno₁, dev₂, blockno₂]
  exact distinct b₁ b₂

/-- The count stays exact when the buffer accounts for the process that moves. -/
theorem Counted.set [Fintype P] (counted : view.Counted)
    (old : (view.pc p).pending = none ∨ (view.pc p).pending = some b)
    (new : pc.pending = none ∨ pc.pending = some b)
    (balance : buf.refcnt + (view.buf b).owners + (if (view.pc p).pending = some b then 1 else 0) =
      (view.buf b).refcnt + buf.owners + if pc.pending = some b then 1 else 0) :
    (view.set p pc b buf).Counted := by
  intro b'
  have pendings : (fun q => ((view.set p pc b buf).pc q).pending) =
      Function.update (fun q => (view.pc q).pending) p pc.pending :=
    Function.comp_update Pc.pending ..
  have moved := references_update (fun q => (view.pc q).pending) p pc.pending b'
  rw [← pendings] at moved
  have before := counted b'
  rcases eq_or_ne b' b with rfl | ne
  · rw [buf_set_self]
    omega
  · have oldOther : (view.pc p).pending ≠ some b' := by
      rcases old with old | old <;> simp [old, ne.symm]
    have newOther : pc.pending ≠ some b' := by
      rcases new with new | new <;> simp [new, ne.symm]
    rw [if_neg oldOther, if_neg newOther] at moved
    rw [buf_set_of_ne ne]
    omega

/-- The processes that have changed a buffer keep its lock. -/
theorem Guarded.set (guarded : view.Guarded)
    (own : ∀ b', pc = .modified b' → b' = b ∧ buf.lock = some p)
    (keep : ∀ q, view.pc q = .modified b → q ≠ p → buf.lock = some q) :
    (view.set p pc b buf).Guarded := by
  intro q b' modified
  rcases eq_or_ne q p with rfl | mover
  · rw [pc_set_self] at modified
    obtain ⟨rfl, locked⟩ := own b' modified
    rwa [buf_set_self]
  · rw [pc_set_of_ne mover] at modified
    rcases eq_or_ne b' b with rfl | ne
    · rw [buf_set_self]
      exact keep q modified mover
    · rw [buf_set_of_ne ne]
      exact guarded q b' modified

theorem sound_set {contents : Blockno → Block} (own : buf.Sound contents)
    (others : ∀ other ≠ b, (view.buf other).Sound contents) (other : Bufno) :
    ((view.set p pc b buf).buf other).Sound contents := by
  rcases eq_or_ne other b with rfl | ne
  · rwa [buf_set_self]
  · rw [buf_set_of_ne ne]
    exact others other ne

/-- The other buffers that may differ from the disk still do. -/
theorem Stale.set_of_ne (stale : view.Stale other) (ne : other ≠ b)
    (place : ∀ b', view.pc p = .modified b' → b' = b) : (view.set p pc b buf).Stale other := by
  obtain ⟨valid, reason⟩ := stale
  rw [Stale, buf_set_of_ne ne]
  refine ⟨valid, reason.imp_right ?_⟩
  rintro ⟨q, modified⟩
  refine ⟨q, ?_⟩
  rw [pc_set_of_ne]
  · exact modified
  · rintro rfl
    exact ne (place other modified)

theorem Stale.set (stale : view.Stale other) (place : ∀ b', view.pc p = .modified b' → b' = b)
    (keep : view.Stale b → buf.valid = true ∧
      (buf.dirty = true ∨ pc = .modified b ∨ ∃ q, q ≠ p ∧ view.pc q = .modified b)) :
    (view.set p pc b buf).Stale other := by
  rcases eq_or_ne other b with rfl | ne
  · obtain ⟨valid, dirty | rfl | ⟨q, mover, modified⟩⟩ := keep stale
    · exact ⟨by simpa, .inl (by simpa)⟩
    · exact ⟨by simpa, .inr ⟨p, pc_set_self⟩⟩
    · exact ⟨by simpa, .inr ⟨q, (pc_set_of_ne mover).trans modified⟩⟩
  · exact stale.set_of_ne ne place

/-- A process that has changed no buffer touches neither flag of one. -/
theorem Stale.set_of_flags (stale : view.Stale other) (place : ∀ b', view.pc p ≠ .modified b')
    (valid_eq : buf.valid = (view.buf b).valid) (dirty_eq : buf.dirty = (view.buf b).dirty) :
    (view.set p pc b buf).Stale other := by
  refine stale.set (fun b' modified => absurd modified (place b')) ?_
  rintro ⟨valid, dirty | ⟨q, modified⟩⟩
  · exact ⟨valid_eq.trans valid, .inl (dirty_eq.trans dirty)⟩
  · refine ⟨valid_eq.trans valid, .inr (.inr ⟨q, ?_, modified⟩)⟩
    rintro rfl
    exact place b modified

end

/-! ## Calls -/

variable {p : P} {store : Option (Blockno × Block)} {b : Bufno}

/-- A buffer that is referenced or dirty stays the buffer for its block. -/
theorem key_of_effect [DecidableEq P] (effect : Effect view p store target)
    (used : (view.buf b).refcnt = 0 → (view.buf b).dirty = true) :
    (target.buf b).key = (view.buf b).key := by
  cases effect with
  | quiet => rfl
  | refer | lock | read | modify | pin | write | unlock | drop => exact key_set (by rfl) b
  | recycle idle unused clean missing =>
    rw [buf_set_of_ne]
    · rintro rfl
      rw [used unused] at clean
      contradiction

/-- The disk changes where the call stores, if at all. -/
theorem disk_of_effect [DecidableEq P] (effect : Effect view p store target) :
    target.disk = view.disk ∨ target.disk = replay view.disk store.toList := by
  cases effect with
  | quiet | refer | recycle | lock | read | modify | pin | unlock | drop => exact .inl rfl
  | write => exact .inr rfl

namespace Coherent

variable [Fintype P] {contents : Blockno → Block}

section

variable (coherent : Coherent view contents)

include coherent

/-- A buffer nobody refers to is not locked and has not just been changed. -/
theorem untouched (unused : (view.buf b).refcnt = 0) :
    (view.buf b).lock = none ∧ ∀ p, view.pc p ≠ .modified b := by
  have counted := coherent.counted b
  have free : (view.buf b).lock = none := by
    by_contra locked
    rw [Buf.owners, if_neg locked] at counted
    omega
  refine ⟨free, fun p modified => ?_⟩
  rw [coherent.held p b modified] at free
  contradiction

theorem refcnt_pos (pending : (view.pc p).pending = some b) : 0 < (view.buf b).refcnt := by
  have counted := coherent.counted b
  have positive : 0 < references (fun p => (view.pc p).pending) b := references_pos pending
  omega

/-- Valid buffers are for different blocks. -/
theorem blockno_ne {b' : Bufno} (valid : (view.buf b).valid = true)
    (valid' : (view.buf b').valid = true) (ne : b' ≠ b) :
    (view.buf b').blockno ≠ (view.buf b).blockno := by
  intro same
  have dev := (coherent.sound b).dev valid
  have dev' := (coherent.sound b').dev valid'
  refine ne (coherent.unique b' b ?_ (dev'.trans dev.symm) same)
  rw [dev']
  decide

theorem data_of_locked (locked : (view.buf b).lock = some p) :
    (view.buf b).data = contents (view.buf b).blockno := by
  have valid := (coherent.sound b).locked (by simp [locked])
  exact (coherent.sound b).data valid

theorem stale_of_modified (modified : view.pc p = .modified b) : view.Stale b := by
  refine ⟨(coherent.sound b).locked ?_, .inr ⟨p, modified⟩⟩
  rw [coherent.held p b modified]
  simp

section

variable [DecidableEq P] (effect : Effect view p store target)
include effect

theorem unique_effect : target.Distinct := by
  cases effect with
  | quiet => exact coherent.unique
  | refer | lock | read | modify | pin | write | unlock | drop =>
    refine Distinct.set ?_ rfl
    exact coherent.unique
  | @recycle b dev blockno idle unused clean missing =>
    intro b₁ b₂ nonzero dev_eq blockno_eq
    rcases eq_or_ne b₁ b with rfl | first
    · rcases eq_or_ne b₂ b₁ with rfl | second
      · rfl
      · rw [buf_set_self, buf_set_of_ne second] at dev_eq blockno_eq
        exact absurd blockno_eq.symm (missing b₂ dev_eq.symm)
    · rw [buf_set_of_ne first] at nonzero dev_eq blockno_eq
      rcases eq_or_ne b₂ b with rfl | second
      · rw [buf_set_self] at dev_eq blockno_eq
        exact absurd blockno_eq (missing b₁ dev_eq)
      · rw [buf_set_of_ne second] at dev_eq blockno_eq
        exact coherent.unique b₁ b₂ nonzero dev_eq blockno_eq

theorem counted_effect : target.Counted := by
  have counted := coherent.counted
  cases effect with
  | quiet => exact counted
  | refer idle =>
    refine counted.set (.inl (by rw [idle]; rfl)) (.inr rfl) ?_
    simp only [idle, Pc.pending, reduceCtorEq, if_false, Nat.add_zero]
    exact Nat.add_right_comm ..
  | recycle idle unused =>
    refine counted.set (.inl (by rw [idle]; rfl)) (.inr rfl) ?_
    have free := (coherent.untouched unused).1
    simp [idle, Pc.pending, Buf.owners, State.recycle, unused, free]
  | lock waiting free | read waiting free =>
    refine counted.set (.inr (by rw [waiting]; rfl)) (.inl rfl) ?_
    simp [waiting, Pc.pending, Buf.owners, free]
  | modify place =>
    rcases place with place | place <;>
      exact counted.set (.inl (by rw [place]; rfl)) (.inl rfl)
        (by simp [place, Pc.pending, Buf.owners])
  | pin place | write place =>
    refine counted.set (.inl (by rw [place]; rfl)) (.inl rfl) ?_
    simp [place, Pc.pending, Buf.owners]
  | unlock idle locked =>
    refine counted.set (.inl (by rw [idle]; rfl)) (.inr rfl) ?_
    simp [idle, Pc.pending, Buf.owners, locked]
  | @drop b releasing =>
    have pending : (view.pc p).pending = some b := by
      rw [releasing]
      rfl
    have positive := coherent.refcnt_pos pending
    refine counted.set (.inr pending) (.inl rfl) ?_
    simp only [releasing, Pc.pending, if_true]
    rw [Nat.add_right_comm, Nat.sub_add_cancel positive]
    rfl

theorem held_effect : target.Guarded := by
  have held := coherent.held
  cases effect with
  | quiet => exact held
  | refer | pin | write | drop =>
    exact held.set (by simp) fun q modified _ => held q _ modified
  | recycle idle unused =>
    refine held.set (by simp) fun q modified _ => ?_
    exact absurd modified ((coherent.untouched unused).2 q)
  | lock waiting free | read waiting free =>
    refine held.set (by simp) fun q modified _ => ?_
    rw [held q _ modified] at free
    contradiction
  | modify place locked =>
    refine held.set ?_ fun q modified _ => held q _ modified
    rintro b' ⟨⟩
    exact ⟨rfl, locked⟩
  | unlock idle locked =>
    refine held.set (by simp) fun q modified ne => ?_
    have lock_eq := held q _ modified
    rw [locked] at lock_eq
    exact absurd (Option.some.inj lock_eq).symm ne

end

/-- The other buffers keep the contents of their blocks. -/
theorem sound_of_ne {data : Block} {b' : Bufno} (valid : (view.buf b).valid = true) (ne : b' ≠ b) :
    (view.buf b').Sound (write contents ((view.buf b).blockno, data)) := by
  have sound := coherent.sound b'
  refine ⟨sound.locked, sound.dirty, sound.dev, fun valid' => ?_⟩
  rw [write_of_ne _ (coherent.blockno_ne valid valid' ne)]
  exact sound.data valid'

/-- The disk has the contents of a block while its buffer has not been read. -/
theorem disk_eq (invalid : (view.buf b).valid = false) (dev : (view.buf b).dev = rootdev) :
    view.disk (view.buf b).blockno = contents (view.buf b).blockno := by
  by_contra differs
  obtain ⟨b', same, valid, -⟩ := coherent.disk _ differs
  have dev' := (coherent.sound b').dev valid
  have : b' = b := by
    refine coherent.unique b' b ?_ (dev'.trans dev.symm) same
    rw [dev']
    decide
  rw [this, invalid] at valid
  contradiction

section

variable [DecidableEq P] (effect : Effect view p store target)
include effect

theorem sound_effect : ∀ b, (target.buf b).Sound (replay contents store.toList) := by
  have others (b other : Bufno) (_ : other ≠ b) := coherent.sound other
  cases effect with
  | quiet => exact coherent.sound
  | @refer b | @drop b =>
    have sound := coherent.sound b
    exact sound_set ⟨sound.locked, sound.dirty, sound.dev, sound.data⟩ (others b)
  | @recycle b _ _ idle unused =>
    have free := (coherent.untouched unused).1
    exact sound_set ⟨fun locked => absurd free locked, by simp [State.recycle],
      by simp [State.recycle], by simp [State.recycle]⟩ (others b)
  | @lock b waiting free valid =>
    have sound := coherent.sound b
    exact sound_set ⟨fun _ => valid, sound.dirty, sound.dev, sound.data⟩ (others b)
  | @read b waiting free invalid dev =>
    exact sound_set ⟨fun _ => rfl, fun _ => rfl, fun _ => dev,
      fun _ => coherent.disk_eq invalid dev⟩ (others b)
  | @pin b modified =>
    have sound := coherent.sound b
    have valid := sound.locked (by simp [coherent.held p b modified])
    exact sound_set ⟨sound.locked, fun _ => valid, sound.dev, sound.data⟩ (others b)
  | @unlock b =>
    have sound := coherent.sound b
    exact sound_set ⟨by simp, sound.dirty, sound.dev, sound.data⟩ (others b)
  | @modify b data place locked =>
    have sound := coherent.sound b
    have valid := sound.locked (by simp [locked])
    exact sound_set ⟨sound.locked, sound.dirty, sound.dev, fun _ => (write_self ..).symm⟩
      fun other ne => coherent.sound_of_ne valid ne
  | @write b data idle locked =>
    have sound := coherent.sound b
    have valid := sound.locked (by simp [locked])
    exact sound_set ⟨fun _ => rfl, fun _ => rfl, fun _ => sound.dev valid,
      fun _ => (write_self ..).symm⟩ fun other ne => coherent.sound_of_ne valid ne

/-- A buffer that may differ from the disk stays the buffer for its block. -/
theorem key_effect (stale : view.Stale b) : (target.buf b).key = (view.buf b).key := by
  refine key_of_effect effect fun unused => ?_
  rcases stale with ⟨-, dirty | ⟨p, modified⟩⟩
  · exact dirty
  · exact absurd modified ((coherent.untouched unused).2 p)

/-- A buffer that may differ from the disk does so until it is written. -/
theorem stale_effect (stale : view.Stale b) :
    target.Stale b ∨ target.pc p = .idle ∧ ∃ data, store = some ((view.buf b).blockno, data) := by
  cases effect with
  | quiet => exact .inl stale
  | refer place | unlock place | lock place | drop place =>
    exact .inl (stale.set_of_flags (by simp [place]) rfl rfl)
  | recycle idle unused clean =>
    refine .inl (stale.set (by simp [idle]) fun stale => ?_)
    rcases stale with ⟨-, dirty | ⟨p, modified⟩⟩
    · rw [clean] at dirty
      contradiction
    · exact absurd modified ((coherent.untouched unused).2 p)
  | read waiting free invalid =>
    refine .inl (stale.set (by simp [waiting]) fun stale => ?_)
    rw [stale.1] at invalid
    contradiction
  | modify place =>
    refine .inl (stale.set ?_ fun stale => ⟨stale.1, .inr (.inl rfl)⟩)
    rcases place with place | place <;> simp +contextual [place]
  | pin modified =>
    exact .inl (stale.set (by simp +contextual [modified]) fun stale => ⟨stale.1, .inl rfl⟩)
  | @write b' data idle locked =>
    rcases eq_or_ne b b' with rfl | ne
    · exact .inr ⟨pc_set_self, data, rfl⟩
    · exact .inl (stale.set_of_ne ne (by simp [idle]))

theorem disk_effect (blockno : Blockno)
    (differs : target.disk blockno ≠ replay contents store.toList blockno) :
    ∃ b, (target.buf b).blockno = blockno ∧ target.Stale b := by
  -- A block on which the disk differed before still has its buffer, unless it is written.
  have carried : view.disk blockno ≠ contents blockno →
      (∃ b, (target.buf b).blockno = blockno ∧ target.Stale b) ∨
        ∃ data, store = some (blockno, data) := by
    intro before
    obtain ⟨b, rfl, stale⟩ := coherent.disk blockno before
    exact (coherent.stale_effect effect stale).imp
      (fun stale' => ⟨b, Buf.blockno_of_key (coherent.key_effect effect stale), stale'⟩)
      fun idle => idle.2
  cases effect with
  | quiet | refer | recycle | lock | read | pin | unlock | drop =>
    exact (carried differs).resolve_right (by simp)
  | @modify b data place locked =>
    by_cases same : (view.buf b).blockno = blockno
    · have valid := (coherent.sound b).locked (by simp [locked])
      exact ⟨b, by simpa, by simpa, .inr ⟨p, pc_set_self⟩⟩
    · have differs' : view.disk blockno ≠ contents blockno := by
        rwa [Option.toList_some, replay_cons, replay_nil, write_of_ne _ (Ne.symm same)] at differs
      exact (carried differs').resolve_right (by simp [same])
  | @write b data idle locked =>
    by_cases same : (view.buf b).blockno = blockno
    · subst same
      simp [View.set] at differs
    · have differs' : view.disk blockno ≠ contents blockno := by
        change write view.disk _ blockno ≠ write contents _ blockno at differs
        rwa [write_of_ne _ (Ne.symm same), write_of_ne _ (Ne.symm same)] at differs
      exact (carried differs').resolve_right (by simp [same])

end

/-- Coherence along a call: the contents change by what the call stores. -/
theorem effect [DecidableEq P] (effect : Effect view p store target) :
    Coherent target (replay contents store.toList) where
  unique := coherent.unique_effect effect
  counted := coherent.counted_effect effect
  held := coherent.held_effect effect
  sound := coherent.sound_effect effect
  disk := coherent.disk_effect effect

end

theorem boot (disk : Disk) : Coherent (State.boot disk : State P).view disk where
  unique := fun _ _ nonzero => absurd rfl nonzero
  counted := by simp [Counted, State.boot, Buf.owners, references, Pc.pending]
  held := by simp [Guarded, State.boot]
  sound := fun b => by constructor <;> simp [State.boot]
  disk := fun _ differs => absurd rfl differs

end Coherent

end View

end Xv6.Buffers
