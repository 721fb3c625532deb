import Xv6.Mkfs.Layout

/-!
# `iappend`

`iappend` keeps the volume sound, appends to one file and leaves the others alone.  It
takes a block exactly when the file needs another one, so it fails only if the blocks
run out or the file gets too large.
-/

namespace Xv6.Mkfs

open Xv6.FileSystem (Dinode BlockPlace Superblock Volume indirect maxfile ndirect nindirect placeOf
  placeOf_direct placeOf_entry pointer)
open Xv6.Log (Blockno)
open Prog

/-! ## How many blocks a file needs -/

/-- The number of blocks for that many bytes. -/
def blockCount (size : Nat) : Nat :=
  (size + bsize - 1) / bsize

/-- The number of blocks that a file of that size takes, with its indirect block. -/
def demand (size : Nat) : Nat :=
  if ndirect < blockCount size then blockCount size + 1 else blockCount size

/-- The places that a file of that size fills. -/
def Needed (size : Nat) : BlockPlace → Prop
  | .addr index => index.val < blockCount size
  | .entry index => ndirect + index.val < blockCount size

theorem demand_mono {first second : Nat} (le : first ≤ second) : demand first ≤ demand second := by
  have : blockCount first ≤ blockCount second := Nat.div_le_div_right (by omega)
  unfold demand
  split <;> split <;> omega

variable {size : Nat}

/-- A file that ends within a block needs that block. -/
theorem blockCount_of_mod_ne (inside : size % bsize ≠ 0) : blockCount size = size / bsize + 1 := by
  unfold blockCount bsize at *
  omega

theorem blockCount_of_mod_eq (full : size % bsize = 0) : blockCount size = size / bsize := by
  unfold blockCount bsize at *
  omega

/-- Bytes that are put into the block at the end of a file. -/
theorem blockCount_add {count : Nat} (some : 0 < count) (within : size % bsize + count ≤ bsize) :
    blockCount (size + count) = size / bsize + 1 := by
  unfold blockCount bsize at *
  omega

/-- An inode has exactly the blocks for that many bytes. -/
def Exact (volume : Volume) (inum size : Nat) : Prop :=
  ∀ place, volume.held (inum, place) ≠ 0 ↔ Needed size place

variable {volume : Volume}

theorem Exact.blockOf {inum bn : Nat} (exact : Exact volume inum size) (bound : bn < maxfile) :
    volume.blockOf inum bn ≠ 0 ↔ bn < blockCount size := by
  by_cases direct : bn < ndirect
  · rw [Volume.blockOf_eq (placeOf_direct direct), exact]
    rfl
  have inTable : bn - ndirect < nindirect := by
    unfold maxfile at bound
    omega
  rw [Volume.blockOf_eq (placeOf_entry direct inTable), exact, Needed]
  simp only
  omega

theorem Exact.mapped {inum : Nat} (exact : Exact volume inum size) (small : size ≤ maxfile * bsize)
    {pos : Nat} (bound : pos < size) : volume.blockOf inum (pos / bsize) ≠ 0 := by
  refine (exact.blockOf ?_).mpr ?_
  · exact Nat.div_lt_of_lt_mul (by rw [Nat.mul_comm]; omega)
  · unfold blockCount bsize
    omega

/-! ## Taking a block -/

/-- The part of the superblock that tells the data blocks. -/
def diskSb : Superblock :=
  ⟨fssize, nblocks, ninodes⟩

theorem dataBlock_iff {block : Blockno} :
    FileSystem.DataBlock diskSb block ↔ nmeta ≤ block.toNat ∧ block.toNat < fssize :=
  Iff.rfl

/-- The image has its full length, the blocks from `freeblock` on hold zeros, and the volume
with the edited inode is sound. -/
structure Steady (state : State) (inum : Nat) (din : RawDinode) : Prop where
  length : state.length = fssize
  low : nmeta ≤ state.freeblock
  high : state.freeblock ≤ fssize
  fresh : ∀ sec, state.freeblock ≤ sec → sec < fssize → state.sectors sec = fun _ => 0
  sound : Volume.Sound diskSb (state.edited inum din)
  live : din.toDinode.type ≠ .free

/-- The next block was put into an empty place of the edited inode. -/
structure Took (inum : Nat) (place : BlockPlace) (state : State) (din : RawDinode) (target : State)
    (din' : RawDinode) : Prop where
  steady : Steady target inum din'
  addrs : ∃ addrs, din' = { din with addrs := addrs }
  grown : Volume.Grown inum (state.edited inum din) (target.edited inum din')
  held : (target.edited inum din').held (inum, place) = state.nextNumber
  nonzero : state.nextNumber ≠ 0
  others : ∀ other ≠ place,
    (target.edited inum din').held (inum, other) = (state.edited inum din).held (inum, other)
  freeblock : target.freeblock = state.freeblock + 1
  freeinode : target.freeinode = state.freeinode
  kept : ∀ sec < nmeta, target.sectors sec = state.sectors sec

variable {state target : State} {inum off : Nat} {din din' : RawDinode} {place : BlockPlace}

namespace Steady

section

variable (steady : Steady state inum din)

include steady

theorem allocatable (room : state.freeblock < fssize)
    (empty : (state.edited inum din).held (inum, place) = 0)
    (table : ∀ index, place = .entry index → din.addrs indirect ≠ 0) :
    Volume.Allocatable diskSb (state.edited inum din) inum state.nextNumber place where
  live := by
    rw [State.node_edited]
    exact steady.live
  empty := empty
  table := by
    rw [State.node_edited]
    exact table
  fresh := by
    simp [State.edited, State.volume, State.toNat_nextNumber room]
  inside := by
    rw [dataBlock_iff, State.toNat_nextNumber room]
    exact ⟨steady.low, room⟩

theorem took
    (allocatable : Volume.Allocatable diskSb (state.edited inum din) inum state.nextNumber place)
    (room : state.freeblock < fssize)
    (volume_eq : target.edited inum din' =
      (state.edited inum din).allocate inum state.nextNumber place)
    (addrs : ∃ addrs, din' = { din with addrs := addrs }) (length : target.length = state.length)
    (freeblock : target.freeblock = state.freeblock + 1)
    (freeinode : target.freeinode = state.freeinode)
    (sectors : ∀ sec, sec < nmeta ∨ state.freeblock < sec → target.sectors sec = state.sectors sec)
    : Took inum place state din target din' where
  steady :=
    { length := length.trans steady.length
      low := by
        have := steady.low
        omega
      high := by omega
      fresh := by
        intro sec above below
        rw [sectors sec (.inr (by omega))]
        exact steady.fresh sec (by omega) below
      sound := by
        rw [volume_eq]
        exact steady.sound.allocate allocatable
      live := by
        obtain ⟨addrs, rfl⟩ := addrs
        exact steady.live }
  addrs := addrs
  grown := by
    rw [volume_eq]
    exact .of_allocate steady.sound allocatable
  held := by
    rw [volume_eq]
    exact allocatable.held_self
  nonzero := steady.sound.ne_zero allocatable.inside
  others := by
    intro other ne
    rw [volume_eq]
    exact steady.sound.held_allocate_of_ne allocatable fun same => ne (congrArg Prod.snd same)
  freeblock := freeblock
  freeinode := freeinode
  kept := fun sec below => sectors sec (.inl below)

/-- The block at a place of the edited inode is a data block. -/
theorem inside (used : (state.edited inum din).held (inum, place) ≠ 0) :
    nmeta ≤ ((state.edited inum din).held (inum, place)).toNat ∧
      ((state.edited inum din).held (inum, place)).toNat < fssize :=
  steady.sound.inside _ used

theorem held_addr (index : Fin (ndirect + 1)) :
    (state.edited inum din).held (inum, .addr index) = din.addrs index := by
  rw [Volume.held_addr, State.node_edited]
  · rfl
  · rw [State.node_edited]
    exact steady.live

theorem held_entry (table : din.addrs indirect ≠ 0) (index : Fin Block.words) :
    (state.edited inum din).held (inum, .entry index) =
      (state.sectors (din.addrs indirect).toNat).word index := by
  have used : (state.edited inum din).held (inum, pointer) ≠ 0 := by
    rwa [pointer, steady.held_addr]
  have inside := steady.inside used
  rw [pointer, steady.held_addr] at inside
  rw [Volume.held_entry, State.node_edited]
  · exact congrArg (fun block : Block => block.word index) (State.data_of_le inside.1)
  · rw [State.node_edited]
    exact steady.live
  · rw [State.node_edited]
    exact table

end

end Steady

/-- The places of the inode that are filled afterwards. -/
theorem Took.held_ne_zero_iff (took : Took inum place state din target din') (other : BlockPlace) :
    (target.edited inum din').held (inum, other) ≠ 0 ↔
      other = place ∨ (state.edited inum din).held (inum, other) ≠ 0 := by
  by_cases eq : other = place
  · subst eq
    rw [took.held]
    exact ⟨fun _ => .inl rfl, fun _ => took.nonzero⟩
  · rw [took.others other eq]
    exact ⟨.inr, fun used => used.resolve_left eq⟩

variable {bn : Nat}

theorem Took.blockOf_eq (took : Took inum place state din target din')
    (at_bn : placeOf bn = some place) :
    (target.edited inum din').blockOf inum bn = state.nextNumber := by
  rw [Volume.blockOf_eq at_bn, took.held]

theorem runs_nextBlock (state : State) : Runs nextBlock state state.nextNumber state.next := by
  unfold nextBlock
  simp only [runs_bind, runs_reading, runs_update, runs_pure]
  exact ⟨_, _, ⟨rfl, rfl⟩, (), _, rfl, rfl, rfl⟩

variable {index : Fin (ndirect + 1)}

theorem runs_mapAddr_of_eq (empty : din.addrs index = 0) :
    Runs (mapAddr din index) state (din.setAddr index state.nextNumber, state.nextNumber)
      state.next := by
  rw [mapAddr, if_pos empty, runs_bind]
  exact ⟨_, _, runs_nextBlock state, runs_pure.mpr ⟨rfl, rfl⟩⟩

theorem runs_mapAddr_of_ne (used : din.addrs index ≠ 0) :
    Runs (mapAddr din index) state (din, din.addrs index) state := by
  rw [mapAddr, if_neg used, runs_pure]
  exact ⟨rfl, rfl⟩

theorem Steady.took_addr (steady : Steady state inum din) (room : state.freeblock < fssize)
    (empty : din.addrs index = 0) :
    Took inum (.addr index) state din state.next (din.setAddr index state.nextNumber) := by
  have fresh := steady.fresh state.freeblock (Nat.le_refl _) room
  refine steady.took (steady.allocatable room ?_ fun _ absurd => ?_) room
    (State.allocate_addr steady.low room fresh din index) ⟨_, rfl⟩ rfl rfl rfl fun _ _ => rfl
  · rw [steady.held_addr, empty]
  · cases absurd

/-- The indirect block is written back with the number of the next block. -/
def State.enter (state : State) (din : RawDinode) (index : Fin Block.words) : State :=
  state.next.write (din.addrs indirect).toNat
    ((state.sectors (din.addrs indirect).toNat).setWord index state.nextNumber)

section

variable (steady : Steady state inum din)

include steady

section

variable (table : din.addrs indirect ≠ 0)
include table

theorem Steady.table_inside :
    nmeta ≤ (din.addrs indirect).toNat ∧ (din.addrs indirect).toNat < fssize ∧
      (din.addrs indirect).toNat < state.freeblock := by
  have used : (state.edited inum din).held (inum, pointer) ≠ 0 := by
    rwa [pointer, steady.held_addr]
  have inside := steady.inside used
  have marked := steady.sound.mark_held used
  rw [pointer, steady.held_addr] at inside marked
  exact ⟨inside.1, inside.2, of_decide_eq_true marked⟩

theorem Steady.runs_mapEntry_of_eq {index : Fin Block.words}
    (empty : (state.edited inum din).held (inum, .entry index) = 0) :
    Runs (mapEntry (din.addrs indirect) index) state state.nextNumber (state.enter din index) := by
  obtain ⟨-, high, -⟩ := steady.table_inside table
  rw [steady.held_entry table] at empty
  unfold mapEntry
  rw [runs_bind]
  refine ⟨_, _, runs_rsect steady.length high, ?_⟩
  rw [if_pos empty]
  simp only [runs_bind, runs_pure]
  refine ⟨_, _, runs_nextBlock state, (), _, runs_wsect _ ?_ high, rfl, rfl⟩
  exact steady.length

theorem Steady.runs_mapEntry_of_ne {index : Fin Block.words}
    (used : (state.edited inum din).held (inum, .entry index) ≠ 0) :
    Runs (mapEntry (din.addrs indirect) index) state
      ((state.edited inum din).held (inum, .entry index)) state := by
  obtain ⟨-, high, -⟩ := steady.table_inside table
  rw [steady.held_entry table] at used ⊢
  unfold mapEntry
  rw [runs_bind]
  refine ⟨_, _, runs_rsect steady.length high, ?_⟩
  rw [if_neg used, runs_pure]
  exact ⟨rfl, rfl⟩

end

theorem Steady.took_entry (room : state.freeblock < fssize) (table : din.addrs indirect ≠ 0)
    {index : Fin Block.words} (empty : (state.edited inum din).held (inum, .entry index) = 0) :
    Took inum (.entry index) state din (state.enter din index) din := by
  have fresh := steady.fresh state.freeblock (Nat.le_refl _) room
  obtain ⟨low, high, below⟩ := steady.table_inside table
  refine steady.took (steady.allocatable room empty fun _ _ => table) room
    (State.allocate_entry steady.low room fresh din index low high) ⟨_, rfl⟩ rfl rfl rfl ?_
  intro sec outside
  exact Function.update_of_ne (by omega) ..

end

/-! ## The block at the end of a file -/

/-- The blocks run out when a file grows to the size. -/
def Short (state : State) (off size : Nat) : Prop :=
  fssize + demand off < state.freeblock + demand size

/-- The inode has the block that follows its first `off` bytes, and no block too many. -/
structure Fetched (inum off : Nat) (state : State) (din : RawDinode) (target : State)
    (din' : RawDinode) (block : Blockno) : Prop where
  steady : Steady target inum din'
  addrs : ∃ addrs, din' = { din with addrs := addrs }
  grown : Volume.Grown inum (state.edited inum din) (target.edited inum din')
  block_eq : block = (target.edited inum din').blockOf inum (off / bsize)
  used : block ≠ 0
  exact : Exact (target.edited inum din') inum (off + 1)
  freeblock : target.freeblock + demand off = state.freeblock + demand (off + 1)
  freeinode : target.freeinode = state.freeinode
  kept : ∀ sec < nmeta, target.sectors sec = state.sectors sec

theorem blockCount_succ (off : Nat) : blockCount (off + 1) = off / bsize + 1 :=
  blockCount_add Nat.one_pos (Nat.mod_lt _ (by decide))

theorem needed_succ_direct (full : off % bsize = 0) (direct : off / bsize < ndirect)
    (place : BlockPlace) :
    Needed (off + 1) place ↔
      place = .addr ⟨off / bsize, Nat.lt_succ_of_lt direct⟩ ∨ Needed off place := by
  cases place with
  | addr index =>
    simp only [Needed, blockCount_succ, blockCount_of_mod_eq full, BlockPlace.addr.injEq,
      Fin.ext_iff]
    omega
  | entry index =>
    simp only [Needed, blockCount_succ, blockCount_of_mod_eq full, reduceCtorEq, false_or]
    omega

theorem needed_succ_entry (full : off % bsize = 0) (beyond : ¬off / bsize < ndirect)
    (inTable : off / bsize - ndirect < nindirect) (place : BlockPlace) :
    Needed (off + 1) place ↔
      place = .entry ⟨off / bsize - ndirect, inTable⟩ ∨ place = pointer ∨ Needed off place := by
  cases place with
  | addr index =>
    simp only [Needed, blockCount_succ, blockCount_of_mod_eq full, pointer, BlockPlace.addr.injEq,
      Fin.ext_iff, indirect, Fin.val_last]
    omega
  | entry index =>
    simp only [Needed, blockCount_succ, blockCount_of_mod_eq full, BlockPlace.entry.injEq,
      Fin.ext_iff, pointer, reduceCtorEq, false_or]
    omega

/-- The block of an inode that is there already. -/
theorem Steady.runs_mapBlock_of_ne (steady : Steady state inum din)
    (used : (state.edited inum din).blockOf inum bn ≠ 0) :
    Runs (mapBlock din bn) state (din, (state.edited inum din).blockOf inum bn) state := by
  obtain ⟨place, at_bn, -, block_eq⟩ := Volume.exists_place_of_blockOf used
  rw [block_eq] at used ⊢
  unfold mapBlock
  by_cases direct : bn < ndirect
  · rw [placeOf_direct direct] at at_bn
    obtain rfl := Option.some.inj at_bn
    rw [steady.held_addr] at used ⊢
    rw [dif_pos direct]
    exact runs_mapAddr_of_ne used
  by_cases inTable : bn - ndirect < nindirect
  · rw [placeOf_entry direct inTable] at at_bn
    obtain rfl := Option.some.inj at_bn
    have table := Volume.table_of_held used
    rw [State.node_edited] at table
    rw [dif_neg direct, dif_pos inTable, runs_bind]
    refine ⟨_, state, runs_mapAddr_of_ne table, ?_⟩
    rw [runs_bind]
    exact ⟨_, state, steady.runs_mapEntry_of_ne table used, runs_pure.mpr ⟨rfl, rfl⟩⟩
  · rw [placeOf, dif_neg direct, dif_neg inTable] at at_bn
    cases at_bn

theorem demand_succ_of_mod_ne (inside : off % bsize ≠ 0) : demand (off + 1) = demand off := by
  rw [demand, demand, blockCount_succ, blockCount_of_mod_ne inside]

theorem demand_succ_of_ne (full : off % bsize = 0) (ne : off / bsize ≠ ndirect) :
    demand (off + 1) = demand off + 1 := by
  rw [demand, demand, blockCount_succ, blockCount_of_mod_eq full]
  split <;> split <;> omega

theorem demand_succ_of_eq (full : off % bsize = 0) (eq : off / bsize = ndirect) :
    demand (off + 1) = demand off + 2 := by
  rw [demand, demand, blockCount_succ, blockCount_of_mod_eq full, if_pos (by omega),
    if_neg (by omega)]

theorem Needed.congr {first second : Nat} (same : blockCount first = blockCount second)
    (place : BlockPlace) : Needed first place ↔ Needed second place := by
  cases place <;> rw [Needed, Needed, same]

theorem toNat_nextNumber_full (full : state.freeblock = fssize) :
    state.nextNumber.toNat = fssize := by
  rw [State.nextNumber, full]
  decide

/-- Nothing is read at the end of the image. -/
theorem ensures_rsect_end {allowed : Halt → Prop} {post : Block → State → Prop}
    (length : state.length = fssize) :
    Ensures allowed (rsect fssize) state post ↔ allowed (.exit "read") := by
  have end_eq : position fssize = fssize := by decide
  unfold rsect
  rw [ensures_bind, ensures_ensure, end_eq, length, if_neg (Nat.lt_irrefl _)]

/-- The places that are filled once the file has its indirect block. -/
def Indirect (volume : Volume) (inum off : Nat) : Prop :=
  ∀ place, volume.held (inum, place) ≠ 0 ↔ place = pointer ∨ Needed off place

/-- The next block is entered into the indirect block, if there is one left. -/
theorem Steady.runs_mapEntry (steady : Steady state inum din)
    (filled : Indirect (state.edited inum din) inum off) (full : off % bsize = 0)
    (beyond : ¬off / bsize < ndirect) (inTable : off / bsize - ndirect < nindirect) :
    Runs (mapEntry (din.addrs indirect) ⟨off / bsize - ndirect, inTable⟩) state state.nextNumber
        (state.enter din ⟨off / bsize - ndirect, inTable⟩) ∧
      (state.freeblock < fssize →
        Took inum (.entry ⟨off / bsize - ndirect, inTable⟩) state din
          (state.enter din ⟨off / bsize - ndirect, inTable⟩) din) := by
  have table : din.addrs indirect ≠ 0 := by
    rw [← steady.held_addr]
    exact (filled pointer).mpr (.inl rfl)
  have empty : (state.edited inum din).held
      (inum, .entry ⟨off / bsize - ndirect, inTable⟩) = 0 := by
    refine not_not.mp fun used => ?_
    rcases (filled _).mp used with absurd | needed
    · cases absurd
    · simp only [Needed, blockCount_of_mod_eq full] at needed
      omega
  exact ⟨steady.runs_mapEntry_of_eq table empty, fun room => steady.took_entry room table empty⟩

/-- A file that has its indirect block gets the next block. -/
theorem Steady.ensures_enter {middle : State} (steady : Steady middle inum din')
    (filled : Indirect (middle.edited inum din') inum off) (full : off % bsize = 0)
    (beyond : ¬off / bsize < ndirect) (inTable : off / bsize - ndirect < nindirect)
    (addrs : ∃ addrs, din' = { din with addrs := addrs })
    (grown : Volume.Grown inum (state.edited inum din) (middle.edited inum din'))
    (freeblock : middle.freeblock + 1 + demand off = state.freeblock + demand (off + 1))
    (freeinode : middle.freeinode = state.freeinode)
    (kept : ∀ sec < nmeta, middle.sectors sec = state.sectors sec) :
    Ensures (fun _ => Short state off (off + 1))
      (do
        let block ← mapEntry (din'.addrs indirect) ⟨off / bsize - ndirect, inTable⟩
        pure (din', block)) middle
      fun result target => Fetched inum off state din target result.1 result.2 ∨
        Short state off (off + 1) ∧ target.length = fssize ∧ result.2.toNat = fssize := by
  obtain ⟨ran, entered⟩ := steady.runs_mapEntry filled full beyond inTable
  rw [ensures_bind, ensures_iff_of_runs ran, ensures_pure]
  by_cases room : middle.freeblock < fssize
  · have took := entered room
    refine .inl ⟨took.steady, addrs, grown.trans took.grown,
      (took.blockOf_eq (placeOf_entry beyond inTable)).symm, took.nonzero, fun place => ?_, ?_,
      took.freeinode.trans freeinode, fun sec below =>
        (took.kept sec below).trans (kept sec below)⟩
    · rw [needed_succ_entry full beyond inTable, took.held_ne_zero_iff, filled]
    · exact freeblock
  · have := steady.high
    refine .inr ⟨?_, steady.length, toNat_nextNumber_full (by omega)⟩
    unfold Short
    omega

section MapBlock

variable (steady : Steady state inum din) (exact : Exact (state.edited inum din) inum off)

include steady exact

/-- The file ends within a block. -/
theorem fetched_of_mod_ne (inside : off % bsize ≠ 0) (small : off / bsize < maxfile) :
    ∃ block, Runs (mapBlock din (off / bsize)) state (din, block) state ∧
      Fetched inum off state din state din block := by
  have used : (state.edited inum din).blockOf inum (off / bsize) ≠ 0 := by
    rw [exact.blockOf small, blockCount_of_mod_ne inside]
    exact Nat.lt_succ_self _
  refine ⟨_, steady.runs_mapBlock_of_ne used, ?_⟩
  refine ⟨steady, ⟨_, rfl⟩, .refl inum _, rfl, used, fun place => ?_, ?_, rfl, fun _ _ => rfl⟩
  · rw [exact, Needed.congr]
    rw [blockCount_succ, blockCount_of_mod_ne inside]
  · rw [demand_succ_of_mod_ne inside]

/-- The next block is a direct one. -/
theorem ensures_mapBlock_direct (full : off % bsize = 0) (direct : off / bsize < ndirect) :
    Ensures (fun _ => Short state off (off + 1)) (mapBlock din (off / bsize)) state
      fun result target => Fetched inum off state din target result.1 result.2 ∨
        Short state off (off + 1) ∧ target.length = fssize ∧ result.2.toNat = fssize := by
  have empty : din.addrs ⟨off / bsize, Nat.lt_succ_of_lt direct⟩ = 0 := by
    rw [← steady.held_addr]
    refine not_not.mp fun used => ?_
    have := (exact _).mp used
    rw [Needed, blockCount_of_mod_eq full] at this
    exact Nat.lt_irrefl _ this
  have more := demand_succ_of_ne full (Nat.ne_of_lt direct)
  unfold mapBlock
  rw [dif_pos direct, ensures_iff_of_runs (runs_mapAddr_of_eq empty)]
  by_cases room : state.freeblock < fssize
  · have took := steady.took_addr room empty
    refine .inl
      ⟨took.steady, took.addrs, took.grown, (took.blockOf_eq (placeOf_direct direct)).symm,
      took.nonzero, fun place => ?_, ?_, took.freeinode, took.kept⟩
    · rw [needed_succ_direct full direct, took.held_ne_zero_iff, exact]
    · rw [took.freeblock]
      omega
  · have := steady.high
    refine .inr ⟨?_, steady.length, toNat_nextNumber_full (by omega)⟩
    unfold Short
    omega

/-- The next block is entered into the indirect block, which may have to be taken first. -/
theorem ensures_mapBlock_entry (full : off % bsize = 0) (beyond : ¬off / bsize < ndirect)
    (inTable : off / bsize - ndirect < nindirect) :
    Ensures (fun _ => Short state off (off + 1)) (mapBlock din (off / bsize)) state
      fun result target => Fetched inum off state din target result.1 result.2 ∨
        Short state off (off + 1) ∧ target.length = fssize ∧ result.2.toNat = fssize := by
  have high := steady.high
  unfold mapBlock
  rw [dif_neg beyond, dif_pos inTable, ensures_bind]
  by_cases first : off / bsize = ndirect
  · have more := demand_succ_of_eq full first
    have empty : din.addrs indirect = 0 := by
      rw [← steady.held_addr]
      refine not_not.mp fun used => ?_
      have needed := (exact _).mp used
      simp only [Needed, blockCount_of_mod_eq full, indirect, Fin.val_last] at needed
      omega
    rw [ensures_iff_of_runs (runs_mapAddr_of_eq empty)]
    by_cases room : state.freeblock < fssize
    · have took := steady.took_addr room empty
      have filled : Indirect (state.next.edited inum (din.setAddr indirect state.nextNumber))
          inum off := fun place => by
        rw [took.held_ne_zero_iff, exact]
        rfl
      have table_eq :
          (din.setAddr indirect state.nextNumber).addrs indirect = state.nextNumber := by
        simp [RawDinode.setAddr]
      have entered := took.steady.ensures_enter filled full beyond inTable took.addrs took.grown
        (by rw [took.freeblock]; omega) took.freeinode took.kept
      rwa [table_eq] at entered
    · -- reading the indirect block fails
      have last : state.freeblock = fssize := by omega
      have length : state.next.length = fssize := steady.length
      dsimp only
      unfold mapEntry
      rw [toNat_nextNumber_full last, ensures_bind, ensures_bind, ensures_rsect_end length]
      unfold Short
      omega
  · have more := demand_succ_of_ne full first
    have filled : Indirect (state.edited inum din) inum off := fun place => by
      rw [exact]
      refine ⟨.inr, fun either => either.elim (fun eq => ?_) id⟩
      rw [eq, pointer, Needed, blockCount_of_mod_eq full, indirect]
      omega
    have table : din.addrs indirect ≠ 0 := by
      rw [← steady.held_addr]
      exact (filled pointer).mpr (.inl rfl)
    rw [ensures_iff_of_runs (runs_mapAddr_of_ne table)]
    exact steady.ensures_enter filled full beyond inTable ⟨_, rfl⟩ (.refl inum _)
      (by omega) rfl fun _ _ => rfl

theorem ensures_mapBlock (small : off / bsize < maxfile) :
    Ensures (fun _ => Short state off (off + 1)) (mapBlock din (off / bsize)) state
      fun result target => Fetched inum off state din target result.1 result.2 ∨
        Short state off (off + 1) ∧ target.length = fssize ∧ result.2.toNat = fssize := by
  by_cases inside : off % bsize = 0
  · by_cases direct : off / bsize < ndirect
    · exact ensures_mapBlock_direct steady exact inside direct
    · refine ensures_mapBlock_entry steady exact inside direct ?_
      unfold maxfile at small
      omega
  · obtain ⟨block, ran, fetched⟩ := fetched_of_mod_ne steady exact inside small
    rw [ensures_iff_of_runs ran]
    exact .inl fetched

end MapBlock

theorem ensures_mapBlock_end {allowed : Halt → Prop} {bn : Nat}
    {post : RawDinode × Blockno → State → Prop} (large : ¬bn < maxfile) :
    Ensures allowed (mapBlock din bn) state post ↔ allowed (.assertion "fbn < MAXFILE") := by
  unfold maxfile at large
  rw [mapBlock, dif_neg (by omega), dif_neg (by omega), ensures_stop]

/-! ## The loop -/

/-- The bytes were appended to the first `off` bytes of the edited inode. -/
structure Appended (inum off : Nat) (p : List Byte) (state : State) (din : RawDinode)
    (target : State) (din' : RawDinode) : Prop where
  steady : Steady target inum din'
  addrs : ∃ addrs, din' = { din with addrs := addrs }
  written : Volume.Written inum off p (state.edited inum din) (target.edited inum din')
  exact : Exact (target.edited inum din') inum (off + p.length)
  small : off + p.length ≤ maxfile * bsize
  freeblock : target.freeblock + demand off = state.freeblock + demand (off + p.length)
  freeinode : target.freeinode = state.freeinode
  kept : ∀ sec < nmeta, target.sectors sec = state.sectors sec

theorem Appended.nil (steady : Steady state inum din)
    (exact : Exact (state.edited inum din) inum off) (small : off ≤ maxfile * bsize) :
    Appended inum off [] state din state din :=
  ⟨steady, ⟨_, rfl⟩, .nil inum off _, exact, small, rfl, rfl, fun _ _ => rfl⟩

theorem Appended.append {middle : State} {din'' : RawDinode} {p rest : List Byte} {position : Nat}
    (first : Appended inum off p state din middle din')
    (second : Appended inum position rest middle din' target din'')
    (position_eq : position = off + p.length) :
    Appended inum off (p ++ rest) state din target din'' where
  steady := second.steady
  addrs := by
    obtain ⟨_, rfl⟩ := first.addrs
    obtain ⟨addrs, rfl⟩ := second.addrs
    exact ⟨addrs, rfl⟩
  written := first.written.append (position_eq ▸ second.written)
  exact := by
    rw [List.length_append, ← Nat.add_assoc, ← position_eq]
    exact second.exact
  small := by
    rw [List.length_append, ← Nat.add_assoc, ← position_eq]
    exact second.small
  freeblock := by
    have before := first.freeblock
    have after := second.freeblock
    rw [← position_eq] at before
    rw [List.length_append, ← Nat.add_assoc, ← position_eq]
    omega
  freeinode := second.freeinode.trans first.freeinode
  kept := fun sec below => (second.kept sec below).trans (first.kept sec below)

variable {block : Blockno}

theorem Fetched.inside (fetched : Fetched inum off state din target din' block) :
    nmeta ≤ block.toNat ∧ block.toNat < fssize ∧ block.toNat < target.freeblock := by
  have used := fetched.used
  rw [fetched.block_eq] at used ⊢
  obtain ⟨place, -, -, place_eq⟩ := Volume.exists_place_of_blockOf used
  rw [place_eq] at used ⊢
  have inside := fetched.steady.inside used
  exact ⟨inside.1, inside.2, of_decide_eq_true (fetched.steady.sound.mark_held used)⟩

/-- Bytes are copied into the block at the end of the file. -/
theorem Fetched.appended (fetched : Fetched inum off state din target din' block)
    (chunk : List Byte) (some : 0 < chunk.length) (within : off % bsize + chunk.length ≤ bsize)
    (small : off / bsize < maxfile) :
    Appended inum off chunk state din (target.write block.toNat
      ((target.sectors block.toNat).splice (off % bsize) chunk)) din' := by
  have steady := fetched.steady
  have used := fetched.used
  have block_eq := fetched.block_eq
  obtain ⟨low, high, marked⟩ := fetched.inside
  have data_eq : target.sectors block.toNat = (target.edited inum din').data block :=
    (State.data_of_le low).symm
  have copied : (target.write block.toNat
      ((target.sectors block.toNat).splice (off % bsize) chunk)).edited inum din' =
        (target.edited inum din').copy block
          (((target.edited inum din').data block).splice (off % bsize) chunk) := by
    rw [State.edited_write_data low high, data_eq, BitVec.ofNat_toNat, BitVec.setWidth_eq]
  have written := Volume.Written.of_grown steady.sound fetched.grown (block_eq ▸ used) within
  rw [← block_eq, ← copied] at written
  refine ⟨⟨steady.length, steady.low, steady.high, fun sec above below => ?_, ?_, steady.live⟩,
    fetched.addrs, written, fun place => ?_, ?_, ?_, fetched.freeinode, fun sec below => ?_⟩
  · rw [← steady.fresh sec above below]
    exact Function.update_of_ne (by have : target.freeblock ≤ sec := above; omega) ..
  · rw [copied, block_eq]
    exact steady.sound.copy (block_eq ▸ used) _
  · have same : blockCount (off + chunk.length) = blockCount (off + 1) := by
      rw [blockCount_succ, blockCount_add some within]
    rw [copied, block_eq, steady.sound.held_copy (block_eq ▸ used), fetched.exact,
      Needed.congr same.symm]
  · unfold bsize at *
    omega
  · have same : demand (off + chunk.length) = demand (off + 1) := by
      rw [demand, demand, blockCount_succ, blockCount_add some within]
    rw [same]
    exact fetched.freeblock
  · rw [← fetched.kept sec below]
    exact Function.update_of_ne (by omega) ..

/-- The reasons for which appending to the first `off` bytes of a file may fail. -/
def TooMuch (state : State) (off count : Nat) : Prop :=
  Short state off (off + count) ∨ maxfile * bsize < off + count

theorem ensures_appendBlocks {turns : Nat} {p : List Byte} (enough : p.length ≤ turns)
    (steady : Steady state inum din) (exact : Exact (state.edited inum din) inum off)
    (fits : off ≤ maxfile * bsize) :
    Ensures (fun _ => TooMuch state off p.length) (appendBlocks turns din off p) state
      fun result target => Appended inum off p state din target result.1 ∧
        result.2 = off + p.length := by
  induction turns generalizing state din off p with
  | zero =>
    obtain rfl := List.length_eq_zero_iff.mp (Nat.le_zero.mp enough)
    exact ⟨.nil steady exact fits, rfl⟩
  | succ turns ih =>
    unfold appendBlocks
    by_cases none : p = []
    · subst none
      rw [if_pos rfl, ensures_pure]
      exact ⟨.nil steady exact fits, rfl⟩
    rw [if_neg none, ensures_bind]
    have some : 0 < p.length := List.length_pos_iff.mpr none
    by_cases small : off / bsize < maxfile
    · have mono := demand_mono (show off + 1 ≤ off + p.length by omega)
      have mapped := (ensures_mapBlock steady exact small).allow fun _ short =>
        (.inl (Nat.lt_of_lt_of_le short (by omega)) : TooMuch state off p.length)
      refine mapped.mono fun result middle _ fetched => ?_
      rw [ensures_bind]
      rcases fetched with fetched | ⟨short, length, block_eq⟩
      · generalize count_eq : min p.length (bsize - off % bsize) = count
        have below : off % bsize < bsize := Nat.mod_lt _ (by decide)
        have chunk_length : (p.take count).length = count := by
          rw [List.length_take]
          omega
        have appended := fetched.appended (p.take count) (by omega) (by omega) small
        have exact' := appended.exact
        have length := fetched.steady.length
        rw [ensures_iff_of_runs (runs_rsect length fetched.inside.2.1), ensures_bind,
          ensures_iff_of_runs (runs_wsect _ length fetched.inside.2.1)]
        rw [chunk_length] at exact'
        have rest := ih (p := p.drop count) (by rw [List.length_drop]; omega)
          appended.steady exact' (chunk_length ▸ appended.small)
        have end_eq : off + count + (p.drop count).length = off + p.length := by
          rw [List.length_drop]
          omega
        refine (rest.allow fun _ tooMuch => ?_).mono fun final last _ tail => ?_
        · unfold TooMuch Short at tooMuch ⊢
          have := appended.freeblock
          rw [chunk_length] at this
          rw [end_eq] at tooMuch
          omega
        · refine ⟨?_, tail.2.trans end_eq⟩
          have whole := appended.append tail.1 (by rw [chunk_length])
          rwa [List.take_append_drop] at whole
      · rw [block_eq, ensures_rsect_end length]
        exact .inl (Nat.lt_of_lt_of_le short (by omega))
    · rw [ensures_mapBlock_end small]
      refine .inr ?_
      have := Nat.mul_le_of_le_div bsize maxfile off (Nat.not_lt.mp small)
      omega

end Xv6.Mkfs
