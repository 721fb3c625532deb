import Xv6.Custody.Marking
import Xv6.FileSystem.Path

/-!
# Volumes

The inodes, the free map and the data blocks of a disk, without the inode cache.  An
inode keeps block numbers among its addresses and in its indirect block.  A volume is
sound if these places hold distinct data blocks and the free map marks the blocks
they hold.  Both the kernel and `mkfs` make a file grow block by block and then copy
bytes into its blocks; what such a change does to the files is derived here.
-/

namespace Xv6.FileSystem

open Function Xv6.Custody List Block Prod
open Xv6.Log (Blockno)

/-! ## Places -/

/-- A place where an inode keeps a block number. -/
inductive BlockPlace where
  | addr (index : Fin (ndirect + 1))
  | entry (index : Fin Block.words)
  deriving DecidableEq

/-- The place of the indirect block. -/
def pointer : BlockPlace :=
  .addr indirect

/-- The place of the `bn`th block of a file. -/
def placeOf (bn : Nat) : Option BlockPlace :=
  if direct : bn < ndirect then
    some (.addr ⟨bn, Nat.lt_succ_of_lt direct⟩)
  else if inTable : bn - ndirect < nindirect then
    some (.entry ⟨bn - ndirect, inTable⟩)
  else
    none

theorem placeOf_direct {bn : Nat} (direct : bn < ndirect) :
    placeOf bn = some (.addr ⟨bn, Nat.lt_succ_of_lt direct⟩) :=
  dif_pos direct

theorem placeOf_entry {bn : Nat} (beyond : ¬bn < ndirect) (inTable : bn - ndirect < nindirect) :
    placeOf bn = some (.entry ⟨bn - ndirect, inTable⟩) := by
  rw [placeOf, dif_neg beyond, dif_pos inTable]

theorem placeOf_ne_pointer (bn : Nat) : placeOf bn ≠ some pointer := by
  unfold placeOf pointer indirect
  split
  · intro same
    simp only [Option.some.injEq, BlockPlace.addr.injEq, Fin.ext_iff, Fin.val_last] at same
    omega
  · split <;> simp

theorem placeOf_injective {first second : Nat} {place : BlockPlace}
    (firstAt : placeOf first = some place) (secondAt : placeOf second = some place) :
    first = second := by
  unfold placeOf at firstAt secondAt
  grind

theorem lt_maxfile_of_placeOf {bn : Nat} {place : BlockPlace} (at_bn : placeOf bn = some place) :
    bn < maxfile := by
  unfold placeOf at at_bn
  unfold maxfile
  split at at_bn
  · omega
  · split at at_bn
    · omega
    · cases at_bn

/-! ## Volumes -/

/-- The inodes, the free map and the data blocks. -/
@[ext]
structure Volume where
  nodes : Nat → Dinode
  bitmap : Blockno → Bool
  data : Blockno → Block

/-- The block number that an inode keeps at a place. -/
def numberAt (data : Blockno → Block) (node : Dinode) : BlockPlace → Blockno
  | .addr index => node.addrs index
  | .entry index =>
    if node.addrs indirect = 0 then 0 else (data (node.addrs indirect)).word index

/-- Block number zero stands for no block. -/
instance (priority := high) : Zero Blockno :=
  ⟨0⟩

/-- The data blocks are the last blocks of the disk. -/
def DataBlock (sb : Superblock) (block : Blockno) : Prop :=
  sb.size - sb.nblocks ≤ block.toNat ∧ block.toNat < sb.size

instance (sb : Superblock) (block : Blockno) : Decidable (DataBlock sb block) :=
  inferInstanceAs (Decidable (_ ∧ _))

namespace Volume

/-- The block numbers that the inodes in use keep. -/
def held (volume : Volume) (key : Nat × BlockPlace) : Blockno :=
  if (volume.nodes key.1).type = .free then 0
  else numberAt volume.data (volume.nodes key.1) key.2

/-- The inodes keep distinct data blocks, and the free map marks these. -/
def Sound (sb : Superblock) (volume : Volume) : Prop :=
  Marking (DataBlock sb) volume.held volume.bitmap

/-- The `bn`th block of a file, or zero. -/
def blockOf (volume : Volume) (inum bn : Nat) : Blockno :=
  match placeOf bn with
  | none => 0
  | some place => volume.held (inum, place)

/-- The byte of a file at an offset. -/
def byteOf (volume : Volume) (inum off : Nat) : Byte :=
  (volume.data (volume.blockOf inum (off / bsize))).byteAt (off % bsize)

/-- The contents of a file. -/
def contents (volume : Volume) (inum : Nat) : List Byte :=
  (List.range (volume.nodes inum).size).map (volume.byteOf inum)

/-- Every block of a file or directory below its size is there. -/
def Mapped (volume : Volume) (inum : Nat) : Prop :=
  ∀ bn, bn * bsize < (volume.nodes inum).size → volume.blockOf inum bn ≠ 0

variable {sb : Superblock} {volume middle target : Volume} {inum bn off : Nat} {place : BlockPlace}
  {block : Blockno} {src rest : List Byte}

theorem blockOf_eq (at_bn : placeOf bn = some place) :
    volume.blockOf inum bn = volume.held (inum, place) := by
  rw [blockOf, at_bn]

/-- A block of a file is at a place other than that of the indirect block. -/
theorem exists_place_of_blockOf (used : volume.blockOf inum bn ≠ 0) :
    ∃ place, placeOf bn = some place ∧ place ≠ pointer ∧
      volume.blockOf inum bn = volume.held (inum, place) := by
  cases at_bn : placeOf bn with
  | none => simp [blockOf, at_bn] at used
  | some place =>
    refine ⟨place, rfl, fun eq => placeOf_ne_pointer bn ?_, blockOf_eq at_bn⟩
    rw [at_bn, eq]

theorem held_addr (live : (volume.nodes inum).type ≠ .free) (index : Fin (ndirect + 1)) :
    volume.held (inum, .addr index) = (volume.nodes inum).addrs index :=
  if_neg live

theorem held_entry (live : (volume.nodes inum).type ≠ .free)
    (table : (volume.nodes inum).addrs indirect ≠ 0) (index : Fin words) :
    volume.held (inum, .entry index) =
      (volume.data ((volume.nodes inum).addrs indirect)).word index := by
  rw [held, if_neg live, numberAt, if_neg table]

theorem held_entry_of_no_table (noTable : (volume.nodes inum).addrs indirect = 0)
    (index : Fin words) : volume.held (inum, .entry index) = 0 := by
  simp [held, numberAt, noTable]

theorem held_of_free (free : (volume.nodes inum).type = .free) (place : BlockPlace) :
    volume.held (inum, place) = 0 :=
  if_pos free

theorem live_of_held (used : volume.held (inum, place) ≠ 0) :
    (volume.nodes inum).type ≠ .free :=
  fun free => used (held_of_free free place)

theorem table_of_held {index : Fin words} (used : volume.held (inum, .entry index) ≠ 0) :
    (volume.nodes inum).addrs indirect ≠ 0 :=
  fun noTable => used (held_entry_of_no_table noTable index)

/-- The places of an inode depend on the inode and on its indirect block. -/
theorem held_congr (node : target.nodes inum = volume.nodes inum)
    (table : volume.held (inum, pointer) ≠ 0 →
      target.data (volume.held (inum, pointer)) = volume.data (volume.held (inum, pointer)))
    (place : BlockPlace) : target.held (inum, place) = volume.held (inum, place) := by
  by_cases free : (volume.nodes inum).type = .free
  · rw [held_of_free free, held_of_free (node ▸ free)]
  cases place with
  | addr index => rw [held_addr free, held_addr (node ▸ free), node]
  | entry index =>
    by_cases noTable : (volume.nodes inum).addrs indirect = 0
    · rw [held_entry_of_no_table noTable, held_entry_of_no_table (node ▸ noTable)]
    · rw [pointer, held_addr free] at table
      rw [held_entry free noTable, held_entry (node ▸ free) (node ▸ noTable), node, table noTable]

/-- The free map does not matter for what a file holds. -/
theorem blockOf_congr (nodes : target.nodes = volume.nodes) (data : target.data = volume.data)
    (inum bn : Nat) : target.blockOf inum bn = volume.blockOf inum bn := by
  simp only [blockOf, held, nodes, data]

theorem byteOf_congr (nodes : target.nodes = volume.nodes) (data : target.data = volume.data)
    (inum off : Nat) : target.byteOf inum off = volume.byteOf inum off := by
  rw [byteOf, byteOf, blockOf_congr nodes data, data]

/-! ## Allocation -/

/-- A zeroed block is put into a place of an inode. -/
def allocate (volume : Volume) (inum : Nat) (block : Blockno) : BlockPlace → Volume
  | .addr index =>
    { nodes := update volume.nodes inum
        { volume.nodes inum with
          addrs := update (volume.nodes inum).addrs index block }
      bitmap := update volume.bitmap block true
      data := update volume.data block fun _ => 0 }
  | .entry index =>
    let data := update volume.data block fun _ => 0
    let table := (volume.nodes inum).addrs indirect
    { nodes := volume.nodes
      bitmap := update volume.bitmap block true
      data := update data table ((data table).setWord index block) }

/-- A free data block can be put into an empty place; an entry needs an indirect block. -/
structure Allocatable (sb : Superblock) (volume : Volume) (inum : Nat) (block : Blockno)
    (place : BlockPlace) : Prop where
  live : (volume.nodes inum).type ≠ .free
  empty : volume.held (inum, place) = 0
  table : ∀ index, place = .entry index → (volume.nodes inum).addrs indirect ≠ 0
  fresh : volume.bitmap block = false
  inside : DataBlock sb block

theorem Allocatable.held_self (allocatable : Allocatable sb volume inum block place) :
    (volume.allocate inum block place).held (inum, place) = block := by
  have live := allocatable.live
  cases place with
  | addr index => simp [held, allocate, numberAt, live]
  | entry index =>
    have table := allocatable.table index rfl
    simp only [held, allocate, numberAt, if_neg live, if_neg table, update_self, word_setWord_self]

namespace Sound

variable (sound : Sound sb volume) (allocatable : Allocatable sb volume inum block place)

include sound

theorem ne_zero (inside : DataBlock sb block) : block ≠ 0 :=
  fun zero => sound.zero (zero ▸ inside)

include allocatable

/-- The data of the blocks in use, apart from the indirect block of the inode. -/
theorem data_allocate {key : Nat × BlockPlace} (used : volume.held key ≠ 0)
    (notTable : key ≠ (inum, pointer)) :
    (volume.allocate inum block place).data (volume.held key) = volume.data (volume.held key) := by
  have ne : volume.held key ≠ block := sound.held_ne allocatable.fresh allocatable.inside key
  cases place with
  | addr index => exact update_of_ne ne ..
  | entry index =>
    have ne_table : volume.held key ≠ (volume.nodes inum).addrs indirect := by
      rw [← held_addr allocatable.live]
      exact sound.held_ne_held used notTable
    simp only [allocate, update_of_ne ne_table, update_of_ne ne]

theorem held_allocate_of_ne {key : Nat × BlockPlace} (ne : key ≠ (inum, place)) :
    (volume.allocate inum block place).held key = volume.held key := by
  obtain ⟨other, at_key⟩ := key
  by_cases eq : other = inum
  · subst eq
    have live := allocatable.live
    cases place with
    | addr index =>
      have newNode : (volume.allocate other block (.addr index)).nodes other =
          { volume.nodes other with
            addrs := update (volume.nodes other).addrs index block } :=
        update_self ..
      cases at_key with
      | addr at_index =>
        have index_ne : at_index ≠ index := fun eq => ne (by rw [eq])
        rw [held_addr live, held_addr (by rw [newNode]; exact live), newNode]
        exact update_of_ne index_ne ..
      | entry at_index =>
        by_cases isTable : index = indirect
        · -- the new indirect block has no entries, and there was none before
          subst isTable
          have noTable : (volume.nodes other).addrs indirect = 0 := by
            rw [← held_addr live]
            exact allocatable.empty
          have newTable : ((volume.allocate other block (.addr indirect)).nodes other).addrs
              indirect = block := by
            simp only [newNode, update_self]
          rw [held_entry_of_no_table noTable, held_entry (by rw [newNode]; exact live)
            (by rw [newTable]; exact sound.ne_zero allocatable.inside)]
          simp only [allocate, update_self, word_zero]
        · have sameTable : ((volume.allocate other block (.addr index)).nodes other).addrs
              indirect = (volume.nodes other).addrs indirect := by
            rw [newNode]
            exact update_of_ne (Ne.symm isTable) ..
          by_cases noTable : (volume.nodes other).addrs indirect = 0
          · rw [held_entry_of_no_table noTable, held_entry_of_no_table (sameTable ▸ noTable)]
          rw [held_entry live noTable, held_entry (by rw [newNode]; exact live)
            (sameTable ▸ noTable), sameTable]
          have table_ne := sound.held_ne allocatable.fresh allocatable.inside (other, pointer)
          rw [pointer, held_addr live] at table_ne
          simp only [allocate, update_of_ne table_ne]
    | entry index =>
      have table := allocatable.table index rfl
      cases at_key with
      | addr at_index => rfl
      | entry at_index =>
        have index_ne : at_index ≠ index := fun eq => ne (by rw [eq])
        have table_ne := sound.held_ne allocatable.fresh allocatable.inside (other, pointer)
        rw [pointer, held_addr live] at table_ne
        have newLive : ((volume.allocate other block (.entry index)).nodes other).type ≠ .free :=
          live
        rw [held_entry live table, held_entry newLive table]
        simp only [allocate, update_self, update_of_ne table_ne]
        exact word_setWord_of_ne _ _ index_ne
  · -- the other inode and its indirect block are as before
    refine held_congr ?_ (fun used => ?_) at_key
    · cases place with
      | addr index => exact update_of_ne eq ..
      | entry index => rfl
    · exact sound.data_allocate allocatable used fun same => eq (congrArg fst same)

theorem allocate : Sound sb (volume.allocate inum block place) := by
  refine Marking.put sound allocatable.fresh allocatable.inside
    allocatable.held_self (fun key ne => sound.held_allocate_of_ne allocatable ne)
    allocatable.empty fun other _ => ?_
  have bitmap_eq : (volume.allocate inum block place).bitmap =
      update volume.bitmap block true := by
    cases place <;> rfl
  rw [bitmap_eq]
  by_cases eq : other = block <;> simp [eq]

end Sound

/-- All inodes keep their blocks, and at most one of them has got more. -/
structure Widened (inum : Nat) (volume target : Volume) : Prop where
  nodes : ∀ other ≠ inum, target.nodes other = volume.nodes other
  node : ∃ addrs, target.nodes inum = { volume.nodes inum with addrs := addrs }
  held : ∀ key, volume.held key ≠ 0 → target.held key = volume.held key
  others : ∀ key : Nat × BlockPlace, key.1 ≠ inum → target.held key = volume.held key

namespace Widened

theorem refl (inum : Nat) (volume : Volume) : Widened inum volume volume :=
  ⟨fun _ _ => rfl, ⟨_, rfl⟩, fun _ _ => rfl, fun _ _ => rfl⟩

theorem trans (first : Widened inum volume middle) (second : Widened inum middle target) :
    Widened inum volume target where
  nodes := fun other ne => (second.nodes other ne).trans (first.nodes other ne)
  node := by
    obtain ⟨addrs, node⟩ := second.node
    obtain ⟨_, node'⟩ := first.node
    exact ⟨addrs, by rw [node, node']⟩
  held := by
    intro key used
    have middleHeld := first.held key used
    rw [second.held key (middleHeld ▸ used), middleHeld]
  others := fun key ne => (second.others key ne).trans (first.others key ne)

theorem blockOf (widened : Widened inum volume target) {other : Nat}
    (used : volume.blockOf other bn ≠ 0) : target.blockOf other bn = volume.blockOf other bn := by
  obtain ⟨place, at_bn, -, block_eq⟩ := exists_place_of_blockOf used
  rw [block_eq] at used ⊢
  rw [blockOf_eq at_bn, widened.held _ used]

end Widened

/-- Blocks were put into empty places of an inode. -/
structure Grown (inum : Nat) (volume target : Volume) : Prop extends
    Widened inum volume target where
  data : ∀ key, volume.held key ≠ 0 → key ≠ (inum, pointer) →
    target.data (volume.held key) = volume.data (volume.held key)

namespace Grown

theorem refl (inum : Nat) (volume : Volume) : Grown inum volume volume :=
  ⟨.refl inum volume, fun _ _ _ => rfl⟩

theorem trans (first : Grown inum volume middle) (second : Grown inum middle target) :
    Grown inum volume target where
  toWidened := first.toWidened.trans second.toWidened
  data := by
    intro key used notTable
    have middleHeld := first.held key used
    have same := second.data key (middleHeld ▸ used) notTable
    rw [middleHeld] at same
    rw [same, first.data key used notTable]

theorem of_allocate (sound : Sound sb volume)
    (allocatable : Allocatable sb volume inum block place) :
    Grown inum volume (volume.allocate inum block place) where
  nodes := by
    intro other ne
    cases place with
    | addr index => exact update_of_ne ne ..
    | entry index => rfl
  node := by
    cases place with
    | addr index => exact ⟨_, update_self ..⟩
    | entry index => exact ⟨_, rfl⟩
  held := by
    intro key used
    refine sound.held_allocate_of_ne allocatable fun eq => used ?_
    rw [eq]
    exact allocatable.empty
  others := fun key ne =>
    sound.held_allocate_of_ne allocatable fun eq => ne (congrArg fst eq)
  data := fun key used notTable => sound.data_allocate allocatable used notTable

theorem byteOf (grown : Grown inum volume target) {other : Nat}
    (used : volume.blockOf other (off / bsize) ≠ 0) :
    target.byteOf other off = volume.byteOf other off := by
  rw [Volume.byteOf, Volume.byteOf, grown.blockOf used]
  obtain ⟨place, -, notTable, block_eq⟩ := exists_place_of_blockOf used
  rw [block_eq] at used ⊢
  rw [grown.data _ used fun eq => notTable (congrArg snd eq)]

end Grown

/-! ## Copying into blocks -/

/-- The data of one block is replaced. -/
def copy (volume : Volume) (block : Blockno) (data : Block) : Volume :=
  { volume with data := update volume.data block data }

section

variable (sound : Sound sb volume)

include sound

section

variable (used : volume.blockOf inum bn ≠ 0)
include used

variable (data : Block)

/-- Copying into a block of a file leaves the indirect blocks alone. -/
theorem Sound.held_copy (key : Nat × BlockPlace) :
    (volume.copy (volume.blockOf inum bn) data).held key = volume.held key := by
  obtain ⟨other, at_key⟩ := key
  obtain ⟨place, -, notTable, block_eq⟩ := exists_place_of_blockOf used
  refine held_congr ?_ (fun _ => update_of_ne ?_ ..) at_key
  · rfl
  · rw [block_eq] at used ⊢
    exact (sound.held_ne_held used fun eq => notTable (congrArg snd eq)).symm

theorem Sound.copy :
    Sound sb (volume.copy (volume.blockOf inum bn) data) :=
  Marking.congr sound (sound.held_copy used data) fun _ _ => rfl

/-- The data of all other blocks stays. -/
theorem Sound.data_copy {key : Nat × BlockPlace}
    (ne : ∀ place, placeOf bn = some place → key ≠ (inum, place)) :
    (volume.copy (volume.blockOf inum bn) data).data (volume.held key) =
      volume.data (volume.held key) := by
  obtain ⟨place, at_bn, -, block_eq⟩ := exists_place_of_blockOf used
  refine update_of_ne ?_ ..
  rw [block_eq] at used ⊢
  exact (sound.held_ne_held used (ne place at_bn).symm).symm

theorem Sound.blockOf_copy (other index : Nat) :
    (volume.copy (volume.blockOf inum bn) data).blockOf other index =
      volume.blockOf other index := by
  unfold blockOf
  split
  · rfl
  · exact sound.held_copy used data _

end

theorem Sound.byteOf_copy_self (data : Block) {pos : Nat}
    (used : volume.blockOf inum (pos / bsize) ≠ 0) :
    (volume.copy (volume.blockOf inum (pos / bsize)) data).byteOf inum pos =
      data.byteAt (pos % bsize) := by
  rw [byteOf, sound.blockOf_copy used]
  simp only [Volume.copy, update_self]

theorem Sound.byteOf_copy_of_ne (used : volume.blockOf inum bn ≠ 0) (data : Block) {pos : Nat}
    (posUsed : volume.blockOf inum (pos / bsize) ≠ 0) (ne : pos / bsize ≠ bn) :
    (volume.copy (volume.blockOf inum bn) data).byteOf inum pos = volume.byteOf inum pos := by
  obtain ⟨place, at_pos, -, block_eq⟩ := exists_place_of_blockOf posUsed
  rw [byteOf, byteOf, sound.blockOf_copy used, block_eq, sound.data_copy used]
  intro at_bn place_eq same
  obtain rfl : place = at_bn := congrArg snd same
  exact ne (placeOf_injective at_pos place_eq)

end

/-- Bytes were copied to an offset of a file, which may have grown for them. -/
structure Written (inum off : Nat) (src : List Byte) (volume target : Volume) : Prop extends
    Widened inum volume target where
  data : ∀ key : Nat × BlockPlace, key.1 ≠ inum → volume.held key ≠ 0 →
    target.data (volume.held key) = volume.data (volume.held key)
  mapped : ∀ pos, off ≤ pos → pos < off + src.length → target.blockOf inum (pos / bsize) ≠ 0
  kept : ∀ pos, volume.blockOf inum (pos / bsize) ≠ 0 → pos < off ∨ off + src.length ≤ pos →
    target.byteOf inum pos = volume.byteOf inum pos
  bytes : ∀ index (bound : index < src.length), target.byteOf inum (off + index) = src[index]

namespace Written

theorem nil (inum off : Nat) (volume : Volume) : Written inum off [] volume volume where
  toWidened := .refl inum volume
  data := fun _ _ _ => rfl
  mapped := fun _ above below => (Nat.not_lt.mpr above below).elim
  kept := fun _ _ _ => rfl
  bytes := fun _ bound => (Nat.not_lt_zero _ bound).elim

/-- Two pieces are written one after the other. -/
theorem append (first : Written inum off src volume middle)
    (second : Written inum (off + src.length) rest middle target) :
    Written inum off (src ++ rest) volume target where
  toWidened := first.toWidened.trans second.toWidened
  data := by
    intro key ne used
    have middleHeld := first.others key ne
    have same := second.data key ne (middleHeld ▸ used)
    rw [middleHeld] at same
    rw [same, first.data key ne used]
  mapped := by
    intro pos above below
    rw [length_append] at below
    by_cases inFirst : pos < off + src.length
    · have used := first.mapped pos above inFirst
      rw [second.blockOf used]
      exact used
    · exact second.mapped pos (by omega) (by omega)
  kept := by
    intro pos used outside
    rw [length_append] at outside
    have middleUsed : middle.blockOf inum (pos / bsize) ≠ 0 := by
      rw [first.blockOf used]
      exact used
    rw [second.kept pos middleUsed (by omega), first.kept pos used (by omega)]
  bytes := by
    intro index bound
    rw [length_append] at bound
    by_cases inFirst : index < src.length
    · rw [getElem_append_left inFirst, ← first.bytes index inFirst]
      exact second.kept _ (first.mapped _ (by omega) (by omega)) (.inl (by omega))
    · have index_eq : off + index = off + src.length + (index - src.length) := by omega
      rw [getElem_append_right (by omega), index_eq]
      exact second.bytes _ (by omega)

/-- A file grows to have a block, and bytes are copied into that block. -/
theorem of_grown (sound : Sound sb middle) (grown : Grown inum volume middle)
    (used : middle.blockOf inum (off / bsize) ≠ 0) (fits : off % bsize + src.length ≤ bsize) :
    Written inum off src volume (middle.copy (middle.blockOf inum (off / bsize))
      ((middle.data (middle.blockOf inum (off / bsize))).splice (off % bsize) src)) where
  nodes := grown.nodes
  node := grown.node
  held := fun key heldBefore => by
    rw [sound.held_copy used]
    exact grown.held key heldBefore
  others := fun key ne => by
    rw [sound.held_copy used]
    exact grown.others key ne
  data := by
    intro key ne heldBefore
    have held_eq := grown.others key ne
    rw [← held_eq, sound.data_copy used _ fun place _ eq => ne (congrArg fst eq), held_eq]
    exact grown.data key heldBefore fun eq => ne (congrArg fst eq)
  mapped := by
    intro pos above below
    have same : pos / bsize = off / bsize := by
      unfold bsize at *
      omega
    rw [same, sound.blockOf_copy used]
    exact used
  kept := by
    intro pos usedBefore outside
    rw [← grown.byteOf usedBefore]
    by_cases same : pos / bsize = off / bsize
    · rw [← same] at used ⊢
      rw [sound.byteOf_copy_self _ used, byteAt_splice_outside]
      · rfl
      · unfold bsize at *
        omega
    · refine sound.byteOf_copy_of_ne used _ ?_ same
      rw [grown.blockOf usedBefore]
      exact usedBefore
  bytes := by
    intro index bound
    have same : (off + index) / bsize = off / bsize := by
      unfold bsize at *
      omega
    have within : (off + index) % bsize = off % bsize + index := by
      unfold bsize at *
      omega
    rw [← same] at used ⊢
    rw [sound.byteOf_copy_self _ used, byteAt_splice_inside]
    · simp only [within, Nat.add_sub_cancel_left]
    · exact Nat.mod_lt _ (by decide)
    · omega
    · omega

end Written

/-! ## Sizes and contents -/

/-- An inode gets a size. -/
def resize (volume : Volume) (inum size : Nat) : Volume :=
  { volume with
    nodes := update volume.nodes inum { volume.nodes inum with size := size } }

theorem node_resize (volume : Volume) (inum size : Nat) :
    (volume.resize inum size).nodes inum = { volume.nodes inum with size := size } :=
  update_self ..

theorem node_resize_of_ne (volume : Volume) {inum other : Nat} (ne : other ≠ inum) (size : Nat) :
    (volume.resize inum size).nodes other = volume.nodes other :=
  update_of_ne ne ..

/-- The places of an inode do not depend on its labels and its size. -/
theorem held_eq_of_node (type : (target.nodes inum).type = (volume.nodes inum).type)
    (addrs : (target.nodes inum).addrs = (volume.nodes inum).addrs)
    (data : target.data = volume.data) (place : BlockPlace) :
    target.held (inum, place) = volume.held (inum, place) := by
  cases place <;> simp only [held, numberAt, type, addrs, data]

@[simp]
theorem held_resize (volume : Volume) (inum size : Nat) (key : Nat × BlockPlace) :
    (volume.resize inum size).held key = volume.held key := by
  obtain ⟨other, place⟩ := key
  by_cases eq : other = inum
  · subst eq
    apply held_eq_of_node <;> simp [resize]
  · apply held_eq_of_node <;> simp [resize, eq]

@[simp]
theorem blockOf_resize (volume : Volume) (inum size other bn : Nat) :
    (volume.resize inum size).blockOf other bn = volume.blockOf other bn := by
  simp only [blockOf, held_resize]

@[simp]
theorem byteOf_resize (volume : Volume) (inum size other off : Nat) :
    (volume.resize inum size).byteOf other off = volume.byteOf other off := by
  simp only [byteOf, blockOf_resize]
  rfl

theorem Sound.resize (sound : Sound sb volume) (inum size : Nat) :
    Sound sb (volume.resize inum size) :=
  Marking.congr sound (held_resize volume inum size) fun _ _ => rfl

theorem Mapped.blockOf (mapped : Mapped volume inum) {pos : Nat}
    (bound : pos < (volume.nodes inum).size) : volume.blockOf inum (pos / bsize) ≠ 0 :=
  mapped _ (Nat.lt_of_le_of_lt (Nat.div_mul_le_self ..) bound)

@[simp]
theorem length_contents (volume : Volume) (inum : Nat) :
    (volume.contents inum).length = (volume.nodes inum).size := by
  simp [contents]

theorem getElem_contents (volume : Volume) (inum : Nat) {index : Nat}
    (bound : index < (volume.contents inum).length) :
    (volume.contents inum)[index] = volume.byteOf inum index := by
  simp [contents]

/-- The file after bytes were written at an offset within it. -/
theorem Written.contents (written : Written inum off src volume target)
    (mapped : Mapped volume inum) (within : off ≤ (volume.nodes inum).size) {size : Nat}
    (size_eq : size = max (volume.nodes inum).size (off + src.length)) :
    (target.resize inum size).contents inum =
      (volume.contents inum).take off ++ src ++ (volume.contents inum).drop (off + src.length) := by
  have length_eq : ((target.resize inum size).contents inum).length = size := by
    simp [resize]
  refine ext_getElem ?_ fun index bound bound' => ?_
  · rw [length_eq]
    simp only [length_append, length_take, length_drop, length_contents]
    omega
  · rw [getElem_contents, byteOf_resize]
    by_cases before : index < off
    · rw [getElem_append_left (by simp; omega), getElem_append_left (by simp; omega),
        getElem_take, getElem_contents,
        written.kept index (mapped.blockOf (by omega)) (.inl before)]
    by_cases inside : index < off + src.length
    · rw [getElem_append_left (by simp; omega), getElem_append_right (by simp; omega)]
      have bytes := written.bytes (index - off) (by omega)
      rw [show off + (index - off) = index by omega] at bytes
      rw [bytes]
      congr 1
      simp only [length_take, length_contents]
      omega
    rw [getElem_append_right (by simp; omega), getElem_drop, getElem_contents]
    rw [written.kept index (mapped.blockOf (by omega)) (.inr (by omega))]
    congr 1
    simp only [length_append, length_take, length_contents]
    omega

/-- A file that grew for what was written at an offset within it has all its blocks. -/
theorem Written.mapped_resize (written : Written inum off src volume target)
    (mapped : Mapped volume inum) (within : off ≤ (volume.nodes inum).size) {size : Nat}
    (size_eq : size = max (volume.nodes inum).size (off + src.length)) :
    Mapped (target.resize inum size) inum := by
  intro bn bound
  rw [blockOf_resize]
  simp only [node_resize] at bound
  by_cases before : bn * bsize < (volume.nodes inum).size
  · rw [written.blockOf (mapped bn before)]
    exact mapped bn before
  · have used := written.mapped (bn * bsize) (by omega) (by omega)
    rwa [Nat.mul_div_cancel _ (by decide)] at used

end Volume

end Xv6.FileSystem
