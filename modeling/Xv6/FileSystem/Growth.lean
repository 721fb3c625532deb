import Mathlib.Data.List.Nodup
import Xv6.FileSystem.Contents

/-!
# Growing files

`bmap` puts new blocks into empty places of an inode, and `writei` copies bytes into
the blocks it finds.  The in-core copy of the inode is written back when the file has
grown.  With enough free blocks for the empty places that are needed, both succeed.
-/

namespace Xv6.FileSystem

open Xv6.Log (Blockno)
open Function Prog List Fs Nat

universe u

/-- A test that changes its mind about one element of a list. -/
theorem countP_flip {α : Type u} {first second : α → Bool} {items : List α} {item : α}
    (nodup : items.Nodup) (member : item ∈ items) (before : first item = true)
    (after : second item = false)
    (others : ∀ other ∈ items, other ≠ item → second other = first other) :
    items.countP first = items.countP second + 1 := by
  obtain ⟨front, back, rfl⟩ := append_of_mem member
  rw [nodup_append, nodup_cons] at nodup
  obtain ⟨-, ⟨notBack, -⟩, apart⟩ := nodup
  have front_eq : front.countP second = front.countP first :=
    countP_congr fun other mem => by
      rw [others other (by simp [mem]) (apart other mem item (by simp))]
  have back_eq : back.countP second = back.countP first :=
    countP_congr fun other mem => by
      rw [others other (by simp [mem]) fun eq => notBack (eq ▸ mem)]
  simp only [countP_append, countP_cons, before, after]
  simp
  omega

namespace Volume

variable {sb : Superblock} {volume target : Volume} {inum : Nat} {block : Blockno}
  {place : BlockPlace} {places : List BlockPlace}

/-- The number of free blocks. -/
def freeBlocks (sb : Superblock) (volume : Volume) : Nat :=
  (List.range sb.size).countP fun b => !volume.bitmap (BitVec.ofNat 32 b)

/-- The number of empty places of an inode among some places. -/
def empties (volume : Volume) (inum : Nat) (places : List BlockPlace) : Nat :=
  places.countP fun place => volume.held (inum, place) = 0

/-- There is a free block for every empty place. -/
def Enough (sb : Superblock) (inum : Nat) (places : List BlockPlace) (volume : Volume) : Prop :=
  volume.empties inum places ≤ volume.freeBlocks sb

instance (sb : Superblock) (inum : Nat) (places : List BlockPlace) (volume : Volume) :
    Decidable (Enough sb inum places volume) :=
  inferInstanceAs (Decidable (_ ≤ _))

/-- The inodes keep distinct data blocks, the free map marks these, and it marks all
blocks in front of the data blocks. -/
structure Laid (sb : Superblock) (volume : Volume) : Prop where
  sound : Sound sb volume
  reserved : ∀ block : Blockno, block.toNat < sb.size - sb.nblocks → volume.bitmap block = true
  fits : sb.size ≤ 2 ^ 32

/-- A block that is free is a data block. -/
theorem Laid.dataBlock (laid : Laid sb volume) (fresh : volume.bitmap block = false)
    (bound : block.toNat < sb.size) : DataBlock sb block := by
  refine ⟨?_, bound⟩
  by_contra below
  rw [laid.reserved block (not_le.mp below)] at fresh
  contradiction

theorem bitmap_allocate (volume : Volume) (inum : Nat) (block : Blockno) (place : BlockPlace) :
    (volume.allocate inum block place).bitmap = update volume.bitmap block true := by
  cases place <;> rfl

theorem Laid.allocate (laid : Laid sb volume)
    (allocatable : Allocatable sb volume inum block place) :
    Laid sb (volume.allocate inum block place) where
  sound := laid.sound.allocate allocatable
  reserved := by
    intro other bound
    rw [bitmap_allocate]
    by_cases eq : other = block
    · rw [eq, update_self]
    · rw [update_of_ne eq]
      exact laid.reserved other bound
  fits := laid.fits

/-- An allocation uses a free block and fills an empty place. -/
theorem Enough.allocate (enough : Enough sb inum places volume) (laid : Laid sb volume)
    (allocatable : Allocatable sb volume inum block place) (nodup : places.Nodup)
    (member : place ∈ places) : Enough sb inum places (volume.allocate inum block place) := by
  have number : BitVec.ofNat 32 block.toNat = block := by simp
  have used : volume.freeBlocks sb = (volume.allocate inum block place).freeBlocks sb + 1 := by
    refine countP_flip nodup_range (mem_range.mpr allocatable.inside.2) ?_ ?_ ?_
    · rw [number, allocatable.fresh]
      rfl
    · rw [number, bitmap_allocate, update_self]
      rfl
    · intro other bound ne
      have inRange : other < 2 ^ 32 := (mem_range.mp bound).trans_le laid.fits
      have other_ne : BitVec.ofNat 32 other ≠ block := by
        intro same
        rw [← same, BitVec.toNat_ofNat, mod_eq_of_lt inRange] at ne
        exact ne rfl
      rw [bitmap_allocate, update_of_ne other_ne]
  have filled : volume.empties inum places =
      (volume.allocate inum block place).empties inum places + 1 := by
    refine countP_flip nodup member (by simpa using allocatable.empty) ?_ ?_
    · rw [allocatable.held_self]
      simpa using laid.sound.ne_zero allocatable.inside
    · intro other _ ne
      rw [laid.sound.held_allocate_of_ne allocatable fun eq => ne (congrArg Prod.snd eq)]
  unfold Enough at enough ⊢
  omega

end Volume

variable {fs middle target : Fs} {ip : Islot} {places : List BlockPlace} {block : Blockno}
  {place : BlockPlace} {bn off : Nat} {src : List Byte}

open Volume

/-! ## Allocation -/

/-- The in-core inode in a slot has got blocks at some places. -/
structure Extends (places : List BlockPlace) (ip : Islot) (fs target : Fs) : Prop where
  sb : target.sb = fs.sb
  inodes : target.inodes = fs.inodes
  others : ∀ other ≠ ip, target.icache other = fs.icache other
  inode : ∃ addrs, target.icache ip = { fs.icache ip with addrs := addrs }
  laid : Laid fs.sb (target.edited ip)
  enough : Enough fs.sb (fs.icache ip).inum places (fs.edited ip) →
    Enough fs.sb (fs.icache ip).inum places (target.edited ip)
  within : ∀ place ∉ places,
    (target.edited ip).held ((fs.icache ip).inum, place) =
      (fs.edited ip).held ((fs.icache ip).inum, place)

namespace Extends

theorem refl (laid : Laid fs.sb (fs.edited ip)) : Extends places ip fs fs where
  sb := rfl
  inodes := rfl
  others := fun _ _ => rfl
  inode := ⟨_, rfl⟩
  laid := laid
  enough := id
  within := fun _ _ => rfl

section

variable (grows : Extends places ip fs target)
include grows

theorem inum :
    (target.icache ip).inum = (fs.icache ip).inum := by
  obtain ⟨_, inode_eq⟩ := grows.inode
  rw [inode_eq]

theorem type :
    (target.icache ip).type = (fs.icache ip).type := by
  obtain ⟨_, inode_eq⟩ := grows.inode
  rw [inode_eq]

theorem size :
    (target.icache ip).size = (fs.icache ip).size := by
  obtain ⟨_, inode_eq⟩ := grows.inode
  rw [inode_eq]

end

theorem trans (first : Extends places ip fs middle) (second : Extends places ip middle target) :
    Extends places ip fs target where
  sb := second.sb.trans first.sb
  inodes := second.inodes.trans first.inodes
  others := fun other ne => (second.others other ne).trans (first.others other ne)
  inode := by
    obtain ⟨addrs, inode_eq⟩ := second.inode
    obtain ⟨_, inode_eq'⟩ := first.inode
    exact ⟨addrs, by rw [inode_eq, inode_eq']⟩
  laid := first.sb ▸ second.laid
  enough := by
    have later := second.enough
    rw [first.sb, first.inum] at later
    exact fun enough => later (first.enough enough)
  within := by
    intro place notIn
    have later := second.within place notIn
    rw [first.inum] at later
    rw [later, first.within place notIn]

end Extends

/-- The free blocks do not suffice for the empty places. -/
def OutOfBlocks (places : List BlockPlace) (ip : Islot) (fs : Fs) (reason : FsStop) : Prop :=
  reason = .panic "balloc: out of blocks" ∧
    ¬Enough fs.sb (fs.icache ip).inum places (fs.edited ip)

theorem OutOfBlocks.of_extends (grows : Extends places ip fs middle) {reason : FsStop}
    (out : OutOfBlocks places ip middle reason) : OutOfBlocks places ip fs reason := by
  obtain ⟨reason_eq, few⟩ := out
  refine ⟨reason_eq, fun enough => few ?_⟩
  rw [grows.sb, grows.inum]
  exact grows.enough enough

/-- `balloc` marks and clears the first free block. -/
theorem ensures_balloc (fits : fs.sb.size ≤ 2 ^ 32) :
    Ensures (fun reason => reason = .panic "balloc: out of blocks" ∧
        fs.volume.freeBlocks fs.sb = 0) balloc fs fun block target =>
      fs.bitmap block = false ∧ block.toNat < fs.sb.size ∧
        target = (fs.setBit block true).setBlock block fun _ => 0 := by
  unfold balloc
  rw [ensures_bind, ensures_reading]
  cases found : (range fs.sb.size).find? fun b => !fs.bitmap (BitVec.ofNat 32 b) with
  | none =>
    rw [ensures_stop]
    refine ⟨rfl, countP_eq_zero.mpr ?_⟩
    exact find?_eq_none.mp found
  | some b =>
    have bound := mem_range.mp (mem_of_find?_eq_some found)
    have fresh := find?_some found
    simp only [ensures_bind, ensures_update, ensures_pure]
    refine ⟨by simpa using fresh, ?_, trivial⟩
    rw [BitVec.toNat_ofNat, mod_eq_of_lt (bound.trans_le fits)]
    exact bound

/-- An allocation for the in-core inode. -/
theorem extends_of_allocate (laid : Laid fs.sb (fs.edited ip))
    (allocatable : Allocatable fs.sb (fs.edited ip) (fs.icache ip).inum block place)
    (nodup : places.Nodup) (member : place ∈ places) (sb : target.sb = fs.sb)
    (inodes : target.inodes = fs.inodes)
    (others : ∀ other ≠ ip, target.icache other = fs.icache other)
    (inode : ∃ addrs, target.icache ip = { fs.icache ip with addrs := addrs })
    (edited : target.edited ip = (fs.edited ip).allocate (fs.icache ip).inum block place) :
    Extends places ip fs target ∧ Grown (fs.icache ip).inum (fs.edited ip) (target.edited ip) := by
  refine ⟨⟨sb, inodes, others, inode, ?_, ?_, ?_⟩, ?_⟩
  · rw [edited]
    exact laid.allocate allocatable
  · rw [edited]
    exact fun enough => enough.allocate laid allocatable nodup member
  · intro other notIn
    have ne : other ≠ place := fun eq => notIn (eq ▸ member)
    rw [edited]
    exact laid.sound.held_allocate_of_ne allocatable fun eq => ne (congrArg Prod.snd eq)
  · rw [edited]
    exact .of_allocate laid.sound allocatable

/-- A free block that `balloc` has found can be put into an empty place. -/
theorem allocatable_of_fresh (laid : Laid fs.sb (fs.edited ip))
    (live : (fs.icache ip).type ≠ .free) (fresh : fs.bitmap block = false)
    (bound : block.toNat < fs.sb.size)
    (empty : (fs.edited ip).held ((fs.icache ip).inum, place) = 0)
    (table : ∀ index, place = .entry index → (fs.icache ip).addrs indirect ≠ 0) :
    Allocatable fs.sb (fs.edited ip) (fs.icache ip).inum block place where
  live := by
    rw [node_edited]
    exact live
  empty := empty
  table := by
    rw [node_edited]
    exact table
  fresh := fresh
  inside := laid.dataBlock fresh bound

/-- Without a free block there is no empty place to be filled. -/
theorem outOfBlocks_of_empty {reason : FsStop}
    (empty : (fs.edited ip).held ((fs.icache ip).inum, place) = 0) (member : place ∈ places)
    (none : reason = .panic "balloc: out of blocks" ∧ fs.volume.freeBlocks fs.sb = 0) :
    OutOfBlocks places ip fs reason := by
  refine ⟨none.1, fun enough => ?_⟩
  have positive : 0 < (fs.edited ip).empties (fs.icache ip).inum places :=
    countP_pos_iff.mpr ⟨place, member, by simpa using empty⟩
  have full : (fs.edited ip).freeBlocks fs.sb = 0 := none.2
  unfold Enough at enough
  omega

/-- A block is found or made at a position of the addresses. -/
theorem ensures_mapAddr (laid : Laid fs.sb (fs.edited ip)) (live : (fs.icache ip).type ≠ .free)
    (nodup : places.Nodup) {index : Fin (ndirect + 1)} (member : .addr index ∈ places) :
    Ensures (OutOfBlocks places ip fs) (mapAddr ip index) fs fun block target =>
      (Extends places ip fs target ∧ Grown (fs.icache ip).inum (fs.edited ip) (target.edited ip)) ∧
      (target.icache ip).addrs index = block ∧ block ≠ 0 := by
  unfold mapAddr
  rw [ensures_bind, ensures_reading]
  split
  · rename_i none
    have empty : (fs.edited ip).held ((fs.icache ip).inum, .addr index) = 0 := by
      rw [held_addr (by rw [node_edited]; exact live), node_edited]
      exact none
    refine (ensures_balloc laid.fits).allow ?_ |>.bind ?_
    · exact fun reason => outOfBlocks_of_empty empty member
    · rintro block middle ⟨fresh, bound, rfl⟩
      have allocatable := allocatable_of_fresh laid live fresh bound empty (by simp)
      simp only [ensures_bind, ensures_update, ensures_pure]
      refine ⟨extends_of_allocate laid allocatable nodup member rfl rfl ?_ ?_ ?_, ?_,
        laid.sound.ne_zero allocatable.inside⟩
      · exact fun other ne => icache_setInode_of_ne ne _
      · exact ⟨_, icache_setInode_self ..⟩
      · refine Volume.ext ?_ rfl rfl
        simp [edited, allocate, Inode.setAddr, setBit, setBlock]
      · simp [Inode.setAddr]
  · rename_i used
    rw [ensures_pure]
    exact ⟨⟨.refl laid, .refl ..⟩, rfl, used⟩

/-- A block is found or made at a position of the indirect block. -/
theorem ensures_mapEntry (laid : Laid fs.sb (fs.edited ip)) (live : (fs.icache ip).type ≠ .free)
    (nodup : places.Nodup) {index : Fin Block.words} (member : .entry index ∈ places)
    (table : (fs.icache ip).addrs indirect ≠ 0) :
    Ensures (OutOfBlocks places ip fs) (mapEntry ((fs.icache ip).addrs indirect) index) fs
      fun block target =>
        (Extends places ip fs target ∧
          Grown (fs.icache ip).inum (fs.edited ip) (target.edited ip)) ∧
        (target.edited ip).held ((fs.icache ip).inum, .entry index) = block ∧ block ≠ 0 := by
  have held_eq : (fs.edited ip).held ((fs.icache ip).inum, .entry index) =
      (fs.data ((fs.icache ip).addrs indirect)).word index := by
    rw [held_entry (by rw [node_edited]; exact live) (by rw [node_edited]; exact table),
      node_edited]
    rfl
  unfold mapEntry
  rw [ensures_bind, ensures_reading, ← held_eq]
  split
  · rename_i empty
    refine (ensures_balloc laid.fits).allow ?_ |>.bind ?_
    · exact fun reason => outOfBlocks_of_empty empty member
    · rintro block middle ⟨fresh, bound, rfl⟩
      have allocatable := allocatable_of_fresh laid live fresh bound empty fun _ _ => table
      simp only [ensures_bind, ensures_update, ensures_pure]
      have edited : (((fs.setBit block true).setBlock block fun _ => 0).setBlock
          ((fs.icache ip).addrs indirect)
          ((((fs.setBit block true).setBlock block fun _ => 0).data
            ((fs.icache ip).addrs indirect)).setWord index block)).edited ip =
          (fs.edited ip).allocate (fs.icache ip).inum block (.entry index) := by
        simp [edited, volume, allocate, setBit, setBlock]
      refine ⟨extends_of_allocate laid allocatable nodup member rfl rfl (fun _ _ => rfl) ⟨_, rfl⟩
        edited, ?_, laid.sound.ne_zero allocatable.inside⟩
      rw [edited]
      exact allocatable.held_self
  · rename_i used
    rw [ensures_pure]
    exact ⟨⟨.refl laid, .refl ..⟩, rfl, used⟩

/-- The places that `bmap` may fill for a block. -/
structure Covers (places : List BlockPlace) (bn : Nat) : Prop where
  block : ∀ place, placeOf bn = some place → place ∈ places
  table : ndirect ≤ bn → pointer ∈ places

/-- `bmap` finds the block or makes it. -/
theorem ensures_bmap (laid : Laid fs.sb (fs.edited ip)) (live : (fs.icache ip).type ≠ .free)
    (nodup : places.Nodup) (bound : bn < maxfile) (covers : Covers places bn) :
    Ensures (OutOfBlocks places ip fs) (bmap ip bn) fs fun block target =>
      (Extends places ip fs target ∧ Grown (fs.icache ip).inum (fs.edited ip) (target.edited ip)) ∧
      target.blockAt ip bn = block ∧ block ≠ 0 := by
  unfold bmap
  split
  · rename_i direct
    have at_bn := placeOf_direct direct
    refine (ensures_mapAddr laid live nodup (covers.block _ at_bn)).mono ?_
    rintro block target - ⟨⟨grows, grown⟩, addr_eq, used⟩
    refine ⟨⟨grows, grown⟩, ?_, used⟩
    rw [blockAt, blockOf_eq at_bn, held_addr, node_edited]
    · exact addr_eq
    · rw [node_edited, grows.type]
      exact live
  · rename_i beyond
    have inTable : bn - ndirect < nindirect := by
      unfold maxfile at bound
      omega
    have at_bn := placeOf_entry beyond inTable
    rw [dif_pos inTable]
    refine (ensures_mapAddr laid live nodup (covers.table (not_lt.mp beyond))).bind ?_
    rintro table middle ⟨⟨grows, grown⟩, rfl, used⟩
    refine (ensures_mapEntry (grows.sb ▸ grows.laid) (grows.type ▸ live) nodup
      (covers.block _ at_bn) used).allow (fun _ => .of_extends grows) |>.mono ?_
    rintro block target - ⟨⟨later, laterGrown⟩, held_eq, blockUsed⟩
    rw [grows.inum] at laterGrown held_eq
    refine ⟨⟨grows.trans later, grown.trans laterGrown⟩, ?_, blockUsed⟩
    rw [blockAt, blockOf_eq at_bn, (grows.trans later).inum]
    exact held_eq

/-! ## Writing -/

/-- Copying into a block leaves what the inodes keep. -/
theorem Extends.setBlock (grows : Extends places ip fs middle) (used : middle.blockAt ip bn ≠ 0)
    (data : Block) : Extends places ip fs (middle.setBlock (middle.blockAt ip bn) data) := by
  have held_eq : ∀ key, ((middle.setBlock (middle.blockAt ip bn) data).edited ip).held key =
      (middle.edited ip).held key :=
    grows.laid.sound.held_copy used data
  refine ⟨grows.sb, grows.inodes, grows.others, grows.inode, ?_, ?_, ?_⟩
  · exact ⟨grows.laid.sound.copy used data, grows.laid.reserved, grows.laid.fits⟩
  · intro enough
    have kept := grows.enough enough
    unfold Enough empties at kept ⊢
    simp only [held_eq]
    exact kept
  · intro place notIn
    rw [held_eq, grows.within place notIn]

/-- The loop of `writei` writes the bytes, if the file may have the blocks for them. -/
theorem ensures_writeBlocks {turns : Nat} (enough : src.length ≤ turns)
    (laid : Laid fs.sb (fs.edited ip)) (live : (fs.icache ip).type ≠ .free)
    (nodup : places.Nodup) (bound : off + src.length ≤ maxfile * bsize)
    (covers : ∀ pos, off ≤ pos → pos < off + src.length → Covers places (pos / bsize)) :
    Ensures (OutOfBlocks places ip fs) (writeBlocks ip turns off src) fs fun _ target =>
      Extends places ip fs target ∧
        Written (fs.icache ip).inum off src (fs.edited ip) (target.edited ip) := by
  induction turns generalizing fs off src with
  | zero =>
    obtain rfl := length_eq_zero_iff.mp (le_zero.mp enough)
    exact ⟨.refl laid, .nil ..⟩
  | succ turns ih =>
    unfold writeBlocks
    by_cases none : src = []
    · subst none
      rw [if_pos rfl, ensures_pure]
      exact ⟨.refl laid, .nil ..⟩
    rw [if_neg none, ensures_bind]
    have positive : 0 < src.length := length_pos_iff.mpr none
    have room : off % bsize < bsize := mod_lt _ (by decide)
    have block : off / bsize < maxfile := Nat.div_lt_of_lt_mul (by rw [Nat.mul_comm]; omega)
    refine (ensures_bmap laid live nodup block (covers off (le_refl _) (by omega))).mono ?_
    rintro _ middle - ⟨⟨grows, grown⟩, rfl, used⟩
    rw [ensures_bind, ensures_update]
    -- one turn copies up to the end of the block
    have taken : (src.take (bsize - off % bsize)).length =
        min src.length (bsize - off % bsize) := by
      rw [length_take, min_comm]
    have first : Written (fs.icache ip).inum off (src.take (bsize - off % bsize))
        (fs.edited ip) ((middle.setBlock (middle.blockAt ip (off / bsize))
          ((middle.data (middle.blockAt ip (off / bsize))).splice (off % bsize)
            (src.take (bsize - off % bsize)))).edited ip) := by
      have used' := used
      rw [blockAt, grows.inum] at used'
      rw [blockAt, grows.inum]
      exact .of_grown grows.laid.sound grown used' (by omega)
    have copied := grows.setBlock used ((middle.data (middle.blockAt ip (off / bsize))).splice
      (off % bsize) (src.take (bsize - off % bsize)))
    have rest_eq : src.take (bsize - off % bsize) ++ src.drop (bsize - off % bsize) = src :=
      take_append_drop ..
    refine (ih ?_ (copied.sb ▸ copied.laid) (copied.type ▸ live) ?_ ?_).allow
      (fun _ => .of_extends copied) |>.mono ?_
    · rw [length_drop]
      omega
    · rw [length_drop]
      omega
    · intro pos above below
      rw [length_drop] at below
      exact covers pos (by omega) (by omega)
    · rintro _ target - ⟨later, written⟩
      rw [copied.inum, ← taken] at written
      exact ⟨copied.trans later, rest_eq ▸ first.append written⟩

end Xv6.FileSystem
