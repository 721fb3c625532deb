import Xv6.FileSystem.Contents
import Xv6.Mkfs.Core

/-!
# The image as a volume

What the sectors of the image mean: the inodes in the inode blocks, the blocks below
`freeblock` as the allocated ones, and the data blocks.  Writing an inode, taking the
next block and writing a data block change just that part of the volume.
-/

namespace Xv6.Mkfs

open Xv6.FileSystem (Dinode FileType Image Superblock Volume indirect ndirect)
open Xv6.Log (Blockno)
open Function Prog BitVec Block RawDinode

/-! ## Inodes in their blocks -/

namespace RawDinode

@[simp]
theorem length_toWords (din : RawDinode) : din.toWords.length = dinodeWords := by
  rfl

/-- The two halves of a word, put together again. -/
theorem extractLsb'_append (high low : BitVec 16) :
    (high ++ low).extractLsb' 0 16 = low ∧ (high ++ low).extractLsb' 16 16 = high := by
  constructor
  all_goals
    apply eq_of_getLsbD_eq
    intro bit bound
    rw [getLsbD_extractLsb', getLsbD_append]
    simp [bound]

@[simp]
theorem ofWords_toWords (din : RawDinode) : ofWords din.toWords = din := by
  have addr : ∀ index : Fin (ndirect + 1),
      din.toWords.getD (3 + index.val) 0 = din.addrs index := by
    intro index
    have entry : (List.ofFn din.addrs)[index.val]? = some (din.addrs index) := by
      rw [List.getElem?_ofFn, dif_pos index.isLt]
    rw [toWords, List.getD_eq_getElem?_getD, List.getElem?_append_right (by simp)]
    simp only [List.length_cons, List.length_nil, Nat.add_sub_cancel_left, entry, Option.getD_some]
  have low := fun high low => (extractLsb'_append high low).1
  have high := fun high low => (extractLsb'_append high low).2
  cases din with
  | mk type major minor nlink size addrs =>
    simp only [ofWords, addr]
    simp [toWords, low, high]

/-- The type of a file system object; other numbers do not occur. -/
def fileType (number : BitVec 16) : FileType :=
  match number.toNat with
  | 1 => .dir
  | 2 => .file
  | 3 => .dev
  | _ => .free

/-- The inode as the kernel reads it. -/
def toDinode (din : RawDinode) : Dinode where
  type := fileType din.type
  major := din.major.toInt
  minor := din.minor.toInt
  nlink := din.nlink.toInt
  size := din.size.toNat
  addrs := din.addrs

end RawDinode

theorem word_setDinodeIn {block : Block} {inum : Nat} {din : RawDinode} {index : Nat}
    (bound : index < words) (outside : index / dinodeWords ≠ inum % ipb) :
    (setDinodeIn block inum din).word (wordIndex index) = block.word (wordIndex index) := by
  have inBlock : inum % ipb < 8 := Nat.mod_lt _ (by decide)
  by_cases before : index < dinodeWords * (inum % ipb)
  · refine word_setWords_of_lt _ before ?_
    simp only [length_toWords, dinodeWords, ndirect, words, bsize] at *
    omega
  · refine word_setWords_of_ge _ ?_ bound
    simp only [length_toWords, dinodeWords, ndirect] at *
    omega

theorem getWords_congr {first second : Block} {start count : Nat}
    (same : ∀ index, start ≤ index → index < start + count →
      first.word (wordIndex index) = second.word (wordIndex index)) :
    first.getWords start count = second.getWords start count := by
  induction count generalizing start with
  | zero => rfl
  | succ count ih =>
    rw [getWords, getWords, same start (Nat.le_refl _) (by omega), ih]
    intro index above below
    exact same index (by omega) (by omega)

@[simp]
theorem dinodeIn_setDinodeIn_self (block : Block) (inum : Nat) (din : RawDinode) :
    dinodeIn (setDinodeIn block inum din) inum = din := by
  have inBlock : inum % ipb < 8 := Nat.mod_lt _ (by decide)
  have fits : dinodeWords * (inum % ipb) + din.toWords.length ≤ words := by
    simp only [length_toWords, dinodeWords, ndirect, words, bsize]
    omega
  have read := getWords_setWords block (dinodeWords * (inum % ipb)) fits
  rw [length_toWords] at read
  rw [dinodeIn, setDinodeIn, read, ofWords_toWords]

theorem dinodeIn_setDinodeIn_of_ne (block : Block) {inum other : Nat} (din : RawDinode)
    (ne : other % ipb ≠ inum % ipb) :
    dinodeIn (setDinodeIn block inum din) other = dinodeIn block other := by
  have inBlock : other % ipb < 8 := Nat.mod_lt _ (by decide)
  rw [dinodeIn, dinodeIn, getWords_congr]
  intro index above below
  refine word_setDinodeIn ?_ ?_
  · simp only [dinodeWords, ndirect, words, bsize] at *
    omega
  · have quotient : index / dinodeWords = other % ipb := by
      simp only [dinodeWords, ndirect] at *
      omega
    rwa [quotient]

/-! ## Sectors -/

/-- The number of inodes that fit into the inode blocks. -/
def capacity : Nat := ninodeblocks * ipb

theorem position_of_lt {sec : Nat} (bound : sec < fssize) : position sec = sec := by
  unfold position fssize bsize at *
  omega

theorem iblock_of_lt {inum : Nat} (bound : inum < capacity) :
    inodestart ≤ iblock inum ∧ iblock inum < bmapstart := by
  have quotient : inum / ipb < ninodeblocks := Nat.div_lt_of_lt_mul (by rwa [capacity] at bound)
  unfold iblock bmapstart inodestart
  generalize inum / ipb = index at quotient ⊢
  omega

theorem bmapstart_lt : bmapstart < nmeta := by
  decide

theorem nmeta_lt : nmeta < fssize := by
  decide

/-- Two inodes in the same block have different positions there. -/
theorem mod_ne_of_iblock_eq {inum other : Nat} (ne : other ≠ inum)
    (same : iblock other = iblock inum) : other % ipb ≠ inum % ipb := by
  unfold iblock at same
  intro mods
  apply ne
  rw [← Nat.div_add_mod other ipb, ← Nat.div_add_mod inum ipb, mods,
    show other / ipb = inum / ipb by omega]

theorem runs_rsect {state : State} {sec : Nat} (length : state.length = fssize)
    (bound : sec < fssize) : Runs (rsect sec) state (state.sectors sec) state := by
  unfold rsect
  simp only [runs_bind, runs_ensure, runs_reading, position_of_lt bound, length]
  exact ⟨(), state, ⟨bound, rfl⟩, rfl, rfl⟩

/-- One sector of the image is replaced. -/
def State.write (state : State) (sec : Nat) (buf : Block) : State :=
  { state with sectors := update state.sectors sec buf }

theorem runs_wsect {state : State} {sec : Nat} (buf : Block) (length : state.length = fssize)
    (bound : sec < fssize) : Runs (wsect sec buf) state () (state.write sec buf) := by
  unfold wsect State.write
  rw [runs_update, position_of_lt bound]
  have kept : max state.length (sec + 1) = state.length := by omega
  rw [kept]

namespace State

variable {state : State} {inum : Nat}

/-- The inode with the number in its block. -/
def dinode (state : State) (inum : Nat) : RawDinode :=
  dinodeIn (state.sectors (iblock inum)) inum

/-- The inodes of the inode blocks, the blocks that `mkfs` has allocated, and the data
blocks. -/
def volume (state : State) : Volume where
  nodes := fun inum =>
    if inum < capacity then (state.dinode inum).toDinode else Dinode.zero .free
  bitmap := fun block => decide (block.toNat < state.freeblock)
  data := fun block => if nmeta ≤ block.toNat then state.sectors block.toNat else fun _ => 0

/-- The volume, with an inode that `mkfs` has changed in memory. -/
def edited (state : State) (inum : Nat) (din : RawDinode) : Volume :=
  { state.volume with nodes := update state.volume.nodes inum din.toDinode }

@[simp]
theorem node_edited (state : State) (inum : Nat) (din : RawDinode) :
    (state.edited inum din).nodes inum = din.toDinode :=
  update_self ..

theorem node_of_lt (bound : inum < capacity) :
    state.volume.nodes inum = (state.dinode inum).toDinode :=
  if_pos bound

theorem edited_dinode (bound : inum < capacity) :
    state.edited inum (state.dinode inum) = state.volume := by
  rw [edited, ← node_of_lt bound, update_eq_self]

theorem data_of_le {block : Blockno} (inside : nmeta ≤ block.toNat) :
    state.volume.data block = state.sectors block.toNat :=
  if_pos inside

/-- Writing an inode. -/
theorem volume_write_dinode (bound : inum < capacity) (din : RawDinode) :
    (state.write (iblock inum) (setDinodeIn (state.sectors (iblock inum)) inum din)).volume =
      state.edited inum din := by
  have below := (iblock_of_lt bound).2
  have nodes_eq : (state.write (iblock inum)
      (setDinodeIn (state.sectors (iblock inum)) inum din)).volume.nodes =
        update state.volume.nodes inum din.toDinode := by
    funext other
    by_cases eq : other = inum
    · subst eq
      rw [node_of_lt bound, dinode, write]
      simp
    rw [update_of_ne eq]
    simp only [volume]
    split
    · unfold dinode write
      by_cases same : iblock other = iblock inum
      · simp only [same, update_self]
        rw [dinodeIn_setDinodeIn_of_ne _ din (mod_ne_of_iblock_eq eq same)]
      · simp only [update_of_ne same]
    · rfl
  have data_eq : (state.write (iblock inum)
      (setDinodeIn (state.sectors (iblock inum)) inum din)).volume.data = state.volume.data := by
    funext block
    simp only [volume]
    split
    · refine update_of_ne ?_ ..
      have := bmapstart_lt
      omega
    · rfl
  rw [edited, ← nodes_eq, ← data_eq]
  rfl

/-- Writing a data block. -/
theorem edited_write_data {sec : Nat} (low : nmeta ≤ sec) (high : sec < fssize) (buf : Block)
    (din : RawDinode) :
    (state.write sec buf).edited inum din =
      (state.edited inum din).copy (BitVec.ofNat 32 sec) buf := by
  have toNat_eq : (BitVec.ofNat 32 sec).toNat = sec := by
    rw [toNat_ofNat]
    unfold fssize at high
    omega
  have nodes_eq : (state.write sec buf).volume.nodes = state.volume.nodes := by
    funext other
    simp only [volume]
    split
    · rename_i bound
      have below := (iblock_of_lt bound).2
      have := bmapstart_lt
      simp only [dinode, write]
      rw [update_of_ne (by omega)]
    · rfl
  have data_eq : (state.write sec buf).volume.data =
      update state.volume.data (BitVec.ofNat 32 sec) buf := by
    funext block
    by_cases eq : block = BitVec.ofNat 32 sec
    · subst eq
      rw [update_self, data_of_le (by rwa [toNat_eq]), toNat_eq]
      exact update_self ..
    rw [update_of_ne eq]
    simp only [volume]
    split
    · refine update_of_ne (fun same => eq ?_) ..
      rw [← same, ofNat_toNat, setWidth_eq]
    · rfl
  rw [edited, nodes_eq, Volume.copy, edited, ← data_eq]
  rfl

/-- The next free block, as a block number. -/
def nextNumber (state : State) : Blockno :=
  BitVec.ofNat 32 state.freeblock

/-- The next free block is taken. -/
def next (state : State) : State :=
  { state with freeblock := state.freeblock + 1 }

theorem toNat_nextNumber (bound : state.freeblock < fssize) :
    state.nextNumber.toNat = state.freeblock := by
  rw [nextNumber, toNat_ofNat]
  unfold fssize at bound
  omega

theorem bitmap_next (bound : state.freeblock < fssize) :
    state.next.volume.bitmap = update state.volume.bitmap state.nextNumber true := by
  funext block
  have toNat_eq := toNat_nextNumber bound
  by_cases eq : block = state.nextNumber
  · simp [volume, next, eq, toNat_eq]
  have ne : block.toNat ≠ state.freeblock := by
    rw [← toNat_eq]
    exact fun same => eq (eq_of_toNat_eq same)
  rw [update_of_ne eq]
  simp only [volume, next]
  exact decide_eq_decide.mpr (by omega)

section

variable (low : nmeta ≤ state.freeblock)
include low

section

variable (bound : state.freeblock < fssize)
include bound

section

variable (fresh : state.sectors state.freeblock = fun _ => 0)
include fresh

/-- The next free block has zeros in it. -/
theorem data_nextNumber :
    update state.volume.data state.nextNumber (fun _ => 0) = state.volume.data := by
  rw [update_eq_self_iff, data_of_le (by rwa [toNat_nextNumber bound]),
    toNat_nextNumber bound, fresh]

/-- Taking the next block for an address. -/
theorem allocate_addr (din : RawDinode) (index : Fin (ndirect + 1)) :
    state.next.edited inum (din.setAddr index state.nextNumber) =
      (state.edited inum din).allocate inum state.nextNumber (.addr index) := by
  have nodes_eq : (state.next.edited inum (din.setAddr index state.nextNumber)).nodes =
      ((state.edited inum din).allocate inum state.nextNumber (.addr index)).nodes := by
    simp only [edited, Volume.allocate, update_self, update_idem]
    rfl
  have bitmap_eq : (state.next.edited inum (din.setAddr index state.nextNumber)).bitmap =
      ((state.edited inum din).allocate inum state.nextNumber (.addr index)).bitmap :=
    bitmap_next bound
  have data_eq : (state.next.edited inum (din.setAddr index state.nextNumber)).data =
      ((state.edited inum din).allocate inum state.nextNumber (.addr index)).data :=
    (data_nextNumber low bound fresh).symm
  exact Volume.ext nodes_eq bitmap_eq data_eq

/-- Taking the next block for an entry of the indirect block. -/
theorem allocate_entry (din : RawDinode)
    (index : Fin words) (tableLow : nmeta ≤ (din.addrs indirect).toNat)
    (tableHigh : (din.addrs indirect).toNat < fssize) :
    (state.next.write (din.addrs indirect).toNat
      ((state.sectors (din.addrs indirect).toNat).setWord index state.nextNumber)).edited inum din =
        (state.edited inum din).allocate inum state.nextNumber (.entry index) := by
  rw [edited_write_data tableLow tableHigh, ofNat_toNat]
  refine Volume.ext ?_ ?_ ?_
  · rfl
  · exact bitmap_next bound
  · have data_eq : (state.edited inum din).data = state.volume.data := rfl
    simp only [Volume.allocate, node_edited, data_eq, data_nextNumber low bound fresh]
    rw [← data_of_le tableLow]
    rfl

end

end

end

end State

end Xv6.Mkfs
