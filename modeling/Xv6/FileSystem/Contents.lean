import Xv6.FileSystem.Inode
import Xv6.FileSystem.Volume

/-!
# Reading the contents of an inode

While an inode is in use its in-core copy stands for it.  Reading a part of it whose
blocks are there returns the bytes of the volume and changes nothing.
-/

namespace Xv6.FileSystem

open Xv6.Log (Blockno)
open Function Prog List Volume

namespace Fs

/-- The disk as a volume. -/
def volume (fs : Fs) : Volume :=
  ⟨fs.inodes, fs.bitmap, fs.data⟩

/-- The disk, with the in-core copy in place of the inode of a slot. -/
def edited (fs : Fs) (ip : Islot) : Volume :=
  { fs.volume with
    nodes := update fs.inodes (fs.icache ip).inum (fs.icache ip).toDinode }

@[simp]
theorem node_edited (fs : Fs) (ip : Islot) :
    (fs.edited ip).nodes (fs.icache ip).inum = (fs.icache ip).toDinode :=
  update_self ..

/-- The in-core copy agrees with the disk. -/
theorem edited_eq {fs : Fs} {ip : Islot}
    (clean : (fs.icache ip).toDinode = fs.inodes (fs.icache ip).inum) :
    fs.edited ip = fs.volume := by
  rw [edited, clean, update_eq_self]
  rfl

end Fs

variable {fs target : Fs} {ip : Islot} {off n bn : Nat}

/-- The `bn`th block of the file in a slot, or zero. -/
def Fs.blockAt (fs : Fs) (ip : Islot) (bn : Nat) : Blockno :=
  (fs.edited ip).blockOf (fs.icache ip).inum bn

/-- The byte at an offset of the file in a slot. -/
def Fs.byteAt (fs : Fs) (ip : Islot) (off : Nat) : Byte :=
  (fs.edited ip).byteOf (fs.icache ip).inum off

theorem runs_mapAddr_of_ne {index : Fin (ndirect + 1)} (used : (fs.icache ip).addrs index ≠ 0) :
    Runs (mapAddr ip index) fs ((fs.icache ip).addrs index) fs := by
  unfold mapAddr
  rw [runs_bind]
  refine ⟨_, fs, runs_reading.mpr ⟨rfl, rfl⟩, ?_⟩
  rw [if_neg used, runs_pure]
  exact ⟨rfl, rfl⟩

theorem runs_mapEntry_of_ne {table : Blockno} {index : Fin Block.words}
    (used : (fs.data table).word index ≠ 0) :
    Runs (mapEntry table index) fs ((fs.data table).word index) fs := by
  unfold mapEntry
  rw [runs_bind]
  refine ⟨_, fs, runs_reading.mpr ⟨rfl, rfl⟩, ?_⟩
  rw [if_neg used, runs_pure]
  exact ⟨rfl, rfl⟩

/-- `bmap` finds a block that is there. -/
theorem runs_bmap_of_ne (used : fs.blockAt ip bn ≠ 0) :
    Runs (bmap ip bn) fs (fs.blockAt ip bn) fs := by
  obtain ⟨place, at_bn, -, block_eq⟩ := exists_place_of_blockOf used
  have block_eq : fs.blockAt ip bn = (fs.edited ip).held ((fs.icache ip).inum, place) := block_eq
  rw [block_eq] at used ⊢
  have live := live_of_held used
  unfold placeOf at at_bn
  unfold bmap
  split at at_bn
  · rename_i direct
    obtain rfl := Option.some.inj at_bn
    rw [held_addr live] at used ⊢
    rw [Fs.node_edited] at used ⊢
    rw [dif_pos direct]
    exact runs_mapAddr_of_ne used
  · rename_i beyond
    split at at_bn
    · rename_i inTable
      obtain rfl := Option.some.inj at_bn
      have table := table_of_held used
      rw [held_entry live table] at used ⊢
      rw [Fs.node_edited] at table used ⊢
      rw [dif_neg beyond, dif_pos inTable, runs_bind]
      exact ⟨_, fs, runs_mapAddr_of_ne table, runs_mapEntry_of_ne used⟩
    · cases at_bn

/-- The bytes of a file that lie in one block. -/
theorem slice_blockAt (fs : Fs) (ip : Islot) {count : Nat} (within : off % bsize + count ≤ bsize) :
    (fs.data (fs.blockAt ip (off / bsize))).slice (off % bsize) count =
      (range count).map fun index => fs.byteAt ip (off + index) := by
  refine map_congr_left fun index bound => ?_
  rw [mem_range] at bound
  have same : (off + index) / bsize = off / bsize := by
    unfold bsize at *
    omega
  have position : (off + index) % bsize = off % bsize + index := by
    unfold bsize at *
    omega
  rw [Fs.byteAt, byteOf, same, position]
  rfl

/-- The loop of `readi` reads bytes whose blocks are there. -/
theorem runs_readBlocks {turns : Nat} (enough : n ≤ turns)
    (mapped : ∀ pos, off ≤ pos → pos < off + n → fs.blockAt ip (pos / bsize) ≠ 0) :
    Runs (readBlocks ip turns off n) fs ((range n).map fun index => fs.byteAt ip (off + index))
      fs := by
  induction turns generalizing off n with
  | zero =>
    obtain rfl := Nat.le_zero.mp enough
    exact runs_pure.mpr ⟨rfl, rfl⟩
  | succ turns ih =>
    unfold readBlocks
    by_cases none : n = 0
    · subst none
      rw [if_pos rfl, runs_pure]
      exact ⟨rfl, rfl⟩
    rw [if_neg none]
    have room : off % bsize < bsize := Nat.mod_lt _ (by decide)
    generalize count_eq : min n (bsize - off % bsize) = count
    have used := mapped off (Nat.le_refl off) (by omega)
    have tail := @ih (off + count) (n - count) (by omega) fun pos above below =>
      mapped pos (by omega) (by omega)
    have bytes_eq : (range n).map (fun index => fs.byteAt ip (off + index)) =
        (fs.data (fs.blockAt ip (off / bsize))).slice (off % bsize) count ++
          (range (n - count)).map fun index => fs.byteAt ip (off + count + index) := by
      rw [slice_blockAt fs ip (by omega)]
      conv_lhs => rw [show n = count + (n - count) by omega]
      rw [range_add, map_append, map_map]
      simp only [comp_def, Nat.add_assoc]
    rw [bytes_eq]
    simp only [runs_bind, runs_reading, runs_pure]
    exact ⟨_, fs, runs_bmap_of_ne used, _, fs, ⟨rfl, rfl⟩, _, fs, tail, rfl, rfl⟩

/-- `readi` returns the bytes up to the end of the file, if their blocks are there. -/
theorem runs_readi {input : Option (List Byte)} (notDev : (fs.icache ip).type ≠ .dev)
    (within : off ≤ (fs.icache ip).size) (noOverflow : ¬Overflows off n)
    (mapped : ∀ pos, off ≤ pos → pos < off + min n ((fs.icache ip).size - off) →
      fs.blockAt ip (pos / bsize) ≠ 0) :
    Runs (readi input ip off n) fs (some ((range (min n ((fs.icache ip).size - off))).map
      fun index => fs.byteAt ip (off + index))) fs := by
  unfold readi
  rw [runs_bind]
  refine ⟨_, fs, runs_reading.mpr ⟨rfl, rfl⟩, ?_⟩
  rw [if_neg notDev, if_neg (not_or.mpr ⟨Nat.not_lt.mpr within, noOverflow⟩), runs_bind]
  exact ⟨_, fs, runs_readBlocks (Nat.le_refl _) mapped, runs_pure.mpr ⟨rfl, rfl⟩⟩

/-- The contents of the file in a slot. -/
def Fs.contentsAt (fs : Fs) (ip : Islot) : List Byte :=
  (fs.edited ip).contents (fs.icache ip).inum

/-- Reading a file that has all its blocks. -/
theorem runs_readi_of_mapped {input : Option (List Byte)} (notDev : (fs.icache ip).type ≠ .dev)
    (within : off ≤ (fs.icache ip).size) (noOverflow : ¬Overflows off n)
    (mapped : (fs.edited ip).Mapped (fs.icache ip).inum) :
    Runs (readi input ip off n) fs (some (((fs.contentsAt ip).drop off).take n)) fs := by
  have bytes_eq : ((fs.contentsAt ip).drop off).take n =
      (range (min n ((fs.icache ip).size - off))).map fun index => fs.byteAt ip (off + index) := by
    refine ext_getElem ?_ fun index bound bound' => ?_
    · simp [Fs.contentsAt]
    · simp only [getElem_take, getElem_drop, getElem_map, getElem_range]
      exact getElem_contents ..
  rw [bytes_eq]
  refine runs_readi notDev within noOverflow fun pos above below => ?_
  exact mapped.blockOf (by rw [Fs.node_edited]; omega)

end Xv6.FileSystem
