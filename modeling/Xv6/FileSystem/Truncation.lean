import Xv6.FileSystem.Growth

/-!
# Discarding the contents of an inode

`itrunc` frees the blocks that an inode keeps and forgets them.  On a volume whose inodes
keep distinct marked blocks no block is freed twice, so `bfree` never panics, and the
other inodes keep what they have.
-/

namespace Xv6.FileSystem

open Xv6.Log (Blockno)
open Function Prog List Fs Volume Block Inode

/-! ## The places of an inode -/

/-- The numbers that a loop finds at its positions. -/
def found {ι : Type} (number : ι → Blockno) (positions : List ι) : List Blockno :=
  (positions.map number).filter (· ≠ 0)

variable {ι : Type} {position : ι} (number : ι → Blockno)

theorem found_cons_of_ne (used : number position ≠ 0) (positions : List ι) :
    found number (position :: positions) = number position :: found number positions := by
  rw [found, map_cons, filter_cons_of_pos (by simpa using used)]
  rfl

theorem found_cons_of_eq (empty : number position = 0) (positions : List ι) :
    found number (position :: positions) = found number positions := by
  rw [found, map_cons, filter_cons_of_neg (by simpa using empty)]
  rfl

theorem mem_found_iff {number : ι → Blockno} {positions : List ι} {block : Blockno} :
    block ∈ found number positions ↔ block ≠ 0 ∧ ∃ position ∈ positions, number position =
      block := by
  rw [found, mem_filter, mem_map, decide_eq_true_iff, and_comm]

theorem found_append (first second : List ι) :
    found number (first ++ second) = found number first ++ found number second := by
  simp [found]

theorem found_map {κ : Type} (number : κ → Blockno) (place : ι → κ) (positions : List ι) :
    found number (positions.map place) =
      found (fun position => number (place position)) positions := by
  simp [found, comp_def]

/-- The places in the order in which `itrunc` visits them. -/
def visited : List BlockPlace :=
  directs.map .addr ++ (List.finRange Block.words).map .entry ++ [pointer]

theorem indirect_not_mem_directs : indirect ∉ directs := by
  decide

theorem mem_directs {index : Fin (ndirect + 1)} (ne : index ≠ indirect) : index ∈ directs := by
  refine mem_map.mpr ⟨⟨index.val, ?_⟩, mem_finRange _, rfl⟩
  have last : index.val ≠ ndirect := fun eq => ne (Fin.ext eq)
  omega

theorem nodup_directs : directs.Nodup := by
  decide

theorem mem_visited (place : BlockPlace) : place ∈ visited := by
  cases place with
  | addr index =>
    by_cases last : index = indirect
    · exact mem_append_right _ (by simp [last, pointer])
    · exact mem_append_left _ (mem_append_left _ (mem_map_of_mem (mem_directs last)))
  | entry index =>
    exact mem_append_left _ (mem_append_right _ (mem_map_of_mem (mem_finRange index)))

theorem nodup_visited : visited.Nodup := by
  refine Nodup.append (Nodup.append ?_ ?_ ?_) (nodup_singleton _) ?_
  · exact nodup_directs.map fun _ _ same => BlockPlace.addr.inj same
  · exact (nodup_finRange _).map fun _ _ same => BlockPlace.entry.inj same
  · intro place isAddr isEntry
    obtain ⟨_, -, rfl⟩ := mem_map.mp isAddr
    obtain ⟨_, -, same⟩ := mem_map.mp isEntry
    contradiction
  · intro place isOther isTable
    rw [mem_singleton.mp isTable] at isOther
    rcases mem_append.mp isOther with isAddr | isEntry
    · obtain ⟨index, member, same⟩ := mem_map.mp isAddr
      rw [BlockPlace.addr.inj same] at member
      exact indirect_not_mem_directs member
    · contradiction

namespace Volume

variable {sb : Superblock} {volume : Volume} {inum other : Nat} {block : Blockno}

/-- The blocks that an inode keeps. -/
def blocks (volume : Volume) (inum : Nat) : List Blockno :=
  found (fun place => volume.held (inum, place)) visited

/-- The inode forgets its blocks, which become free. -/
def discard (volume : Volume) (inum : Nat) : Volume :=
  { volume with
    nodes := update volume.nodes inum
      { volume.nodes inum with size := 0, addrs := fun _ => 0 }
    bitmap := fun block => volume.bitmap block && !decide (block ∈ volume.blocks inum) }

theorem mem_blocks_iff :
    block ∈ volume.blocks inum ↔ block ≠ 0 ∧ ∃ place, volume.held (inum, place) = block := by
  rw [blocks, mem_found_iff]
  refine and_congr_right fun _ => ⟨?_, ?_⟩
  · rintro ⟨place, -, held_eq⟩
    exact ⟨place, held_eq⟩
  · rintro ⟨place, held_eq⟩
    exact ⟨place, mem_visited place, held_eq⟩

theorem held_discard (volume : Volume) (inum : Nat) (key : Nat × BlockPlace) :
    (volume.discard inum).held key = if key.1 = inum then 0 else volume.held key := by
  obtain ⟨other, place⟩ := key
  by_cases same : other = inum
  · subst same
    cases place <;> simp [held, numberAt, discard]
  · rw [if_neg same]
    apply held_eq_of_node <;> simp [discard, same]

/-- The free map after the contents of an inode are discarded. -/
theorem Laid.discard (laid : Laid sb volume) (inum : Nat) : Laid sb (volume.discard inum) where
  sound := by
    have emptied (key : Nat × BlockPlace) (gone : key.1 = inum) :
        (volume.discard inum).held key = 0 := by rw [held_discard, if_pos gone]
    refine Custody.Marking.clear laid.sound emptied ?_ ?_
    · intro key stays
      rw [held_discard, if_neg stays]
    · intro block inside
      have used : block ≠ 0 := laid.sound.ne_zero inside
      simp only [Volume.discard, Bool.and_eq_true, Bool.not_eq_true', decide_eq_false_iff_not,
        mem_blocks_iff]
      refine and_congr_right fun _ => ⟨?_, ?_⟩
      · rintro notHeld ⟨other, place⟩ rfl held_eq
        exact notHeld ⟨used, place, held_eq⟩
      · rintro apart ⟨-, place, held_eq⟩
        exact apart (inum, place) rfl held_eq
  reserved := by
    intro block below
    have notHeld : block ∉ volume.blocks inum := by
      intro member
      obtain ⟨used, place, rfl⟩ := mem_blocks_iff.mp member
      have inside := laid.sound.inside _ used
      exact absurd inside.1 (Nat.not_le.mpr below)
    simp [Volume.discard, laid.reserved block below, notHeld]
  fits := laid.fits

/-- Another inode keeps its blocks and its bytes. -/
theorem blockOf_discard (ne : other ≠ inum) (bn : Nat) :
    (volume.discard inum).blockOf other bn = volume.blockOf other bn := by
  unfold blockOf
  split
  · rfl
  · rw [held_discard, if_neg ne]

end Volume

/-! ## The loops of `itrunc` -/

variable {fs target : Fs} {ip : Islot}

/-- The free map without some blocks. -/
def Fs.clear (fs : Fs) (freed : List Blockno) : Fs :=
  { fs with bitmap := fun block => fs.bitmap block && !decide (block ∈ freed) }

theorem Fs.clear_nil (fs : Fs) : fs.clear [] = fs := by
  simp [clear]

theorem Fs.clear_cons (fs : Fs) (block : Blockno) (freed : List Blockno) :
    (fs.setBit block false).clear freed = fs.clear (block :: freed) := by
  simp only [clear, setBit]
  congr 1
  funext other
  by_cases same : other = block <;> simp [same]

theorem runs_bfree {block : Blockno} (marked : fs.bitmap block = true) :
    Runs (bfree block) fs () (fs.setBit block false) := by
  unfold bfree
  rw [runs_bind]
  exact ⟨(), fs, runs_ensure.mpr ⟨marked, rfl⟩, runs_update.mpr rfl⟩

/-- After a block is freed, the others that are still to be freed are marked. -/
theorem marked_setBit {block : Blockno} {freed : List Blockno} (nodup : (block :: freed).Nodup)
    (marked : ∀ other ∈ block :: freed, fs.bitmap other = true) :
    ∀ other ∈ freed, (fs.setBit block false).bitmap other = true := by
  intro other member
  have ne : other ≠ block := fun eq => (nodup_cons.mp nodup).1 (eq ▸ member)
  simp only [setBit, update_of_ne ne]
  exact marked other (mem_cons_of_mem _ member)

/-- The loop over the indirect table frees the blocks of its entries. -/
theorem runs_freeTable (table : Block) {indices : List (Fin words)}
    (nodup : (found table.word indices).Nodup)
    (marked : ∀ block ∈ found table.word indices, fs.bitmap block = true) :
    Runs (freeTable table indices) fs () (fs.clear (found table.word indices)) := by
  induction indices generalizing fs with
  | nil =>
    rw [freeTable, runs_pure]
    exact ⟨rfl, (clear_nil fs).symm⟩
  | cons index rest ih =>
    rw [freeTable, runs_bind]
    by_cases empty : table.word index = 0
    · rw [found_cons_of_eq _ empty] at nodup marked ⊢
      refine ⟨(), fs, ?_, ih nodup marked⟩
      rw [runs_whenever]
      exact .inr ⟨not_not.mpr empty, rfl⟩
    rw [found_cons_of_ne _ empty] at nodup marked ⊢
    refine ⟨(), fs.setBit (table.word index) false, ?_, ?_⟩
    · rw [runs_whenever]
      exact .inl ⟨empty, runs_bfree (marked _ mem_cons_self)⟩
    · rw [← clear_cons]
      exact ih (nodup_cons.mp nodup).2 (marked_setBit nodup marked)

/-- The in-core inode without the addresses at some positions. -/
def Inode.forget (inode : Inode) (indices : List (Fin (ndirect + 1))) : Inode :=
  { inode with addrs := fun index => if index ∈ indices then 0 else inode.addrs index }

theorem Inode.forget_nil (inode : Inode) : inode.forget [] = inode := by
  simp [forget]

theorem Inode.forget_cons (inode : Inode) (index : Fin (ndirect + 1))
    (rest : List (Fin (ndirect + 1))) :
    (inode.setAddr index 0).forget rest = inode.forget (index :: rest) := by
  simp only [forget, setAddr]
  congr 2
  funext other
  by_cases same : other = index <;> simp [same]

/-- The loop over the addresses frees their blocks and forgets them. -/
theorem runs_freeDirect {indices : List (Fin (ndirect + 1))} (distinct : indices.Nodup)
    (nodup : (found (fs.icache ip).addrs indices).Nodup)
    (marked : ∀ block ∈ found (fs.icache ip).addrs indices, fs.bitmap block = true) :
    Runs (freeDirect ip indices) fs ()
      ((fs.clear (found (fs.icache ip).addrs indices)).setInode ip (·.forget indices)) := by
  induction indices generalizing fs with
  | nil =>
    rw [freeDirect, runs_pure]
    refine ⟨rfl, ?_⟩
    simp only [found, map_nil, filter_nil, clear_nil]
    exact (setInode_eq_self (forget_nil _)).symm
  | cons index rest ih =>
    obtain ⟨notIn, distinct⟩ := nodup_cons.mp distinct
    rw [freeDirect, runs_bind]
    refine ⟨_, fs, runs_reading.mpr ⟨rfl, rfl⟩, ?_⟩
    rw [runs_bind]
    by_cases empty : (fs.icache ip).addrs index = 0
    · rw [found_cons_of_eq _ empty] at nodup marked ⊢
      refine ⟨(), fs, ?_, ?_⟩
      · rw [runs_whenever]
        exact .inr ⟨not_not.mpr empty, rfl⟩
      · have forgotten : (fs.icache ip).setAddr index 0 = fs.icache ip := by
          rw [setAddr, ← empty, update_eq_self]
        have same : (fs.icache ip).forget (index :: rest) = (fs.icache ip).forget rest := by
          rw [← forget_cons, forgotten]
        have target_eq : (fs.clear (found (fs.icache ip).addrs rest)).setInode ip
            (·.forget (index :: rest)) =
              (fs.clear (found (fs.icache ip).addrs rest)).setInode ip (·.forget rest) :=
          setInode_congr same
        rw [target_eq]
        exact ih distinct nodup marked
    · rw [found_cons_of_ne _ empty] at nodup marked ⊢
      have freed : Runs (whenever ((fs.icache ip).addrs index ≠ 0) do
          bfree ((fs.icache ip).addrs index)
          update fun fs => fs.setInode ip fun inode => inode.setAddr index 0) fs ()
            ((fs.setBit ((fs.icache ip).addrs index) false).setInode ip
              fun inode => inode.setAddr index 0) := by
        rw [runs_whenever]
        refine .inl ⟨empty, runs_bind.mpr ⟨(), _, ?_, runs_update.mpr rfl⟩⟩
        exact runs_bfree (marked _ mem_cons_self)
      refine ⟨(), _, freed, ?_⟩
      have later : found (((fs.setBit ((fs.icache ip).addrs index) false).setInode ip
          fun inode => inode.setAddr index 0).icache ip).addrs rest =
            found (fs.icache ip).addrs rest := by
        unfold found
        congr 1
        refine map_congr_left fun other member => ?_
        have ne : other ≠ index := fun eq => notIn (eq ▸ member)
        rw [icache_setInode_self]
        exact update_of_ne ne ..
      have tail := @ih ((fs.setBit ((fs.icache ip).addrs index) false).setInode ip
        fun inode => inode.setAddr index 0) distinct
      rw [later] at tail
      have ran := tail (nodup_cons.mp nodup).2 (marked_setBit nodup marked)
      have target_eq : (((fs.setBit ((fs.icache ip).addrs index) false).setInode ip
          fun inode => inode.setAddr index 0).clear (found (fs.icache ip).addrs rest)).setInode ip
            (·.forget rest) = (fs.clear ((fs.icache ip).addrs index ::
              found (fs.icache ip).addrs rest)).setInode ip (·.forget (index :: rest)) := by
        rw [← clear_cons]
        change (((fs.setBit ((fs.icache ip).addrs index) false).clear
          (found (fs.icache ip).addrs rest)).setInode ip
            fun inode => inode.setAddr index 0).setInode ip (·.forget rest) = _
        rw [setInode_setInode]
        exact setInode_congr (forget_cons ..)
      rwa [target_eq] at ran

/-! ## `itrunc` -/

@[simp]
theorem Fs.icache_clear (fs : Fs) (freed : List Blockno) : (fs.clear freed).icache = fs.icache :=
  rfl

theorem Fs.clear_setInode (fs : Fs) (ip : Islot) (change : Inode → Inode) (freed : List Blockno) :
    (fs.setInode ip change).clear freed = (fs.clear freed).setInode ip change :=
  rfl

theorem Fs.clear_append (fs : Fs) (first second : List Blockno) :
    (fs.clear first).clear second = fs.clear (first ++ second) := by
  simp only [clear]
  simp [Bool.and_assoc]

/-- An inode keeps distinct blocks at its places. -/
theorem Volume.Sound.nodup_found {sb : Superblock} {volume : Volume} (sound : Sound sb volume)
    (inum : Nat) {places : List BlockPlace} (nodup : places.Nodup) :
    (found (fun place => volume.held (inum, place)) places).Nodup := by
  induction places with
  | nil => exact nodup_nil
  | cons place rest ih =>
    obtain ⟨notIn, nodup⟩ := nodup_cons.mp nodup
    by_cases empty : volume.held (inum, place) = 0
    · rw [found_cons_of_eq (fun place => volume.held (inum, place)) empty]
      exact ih nodup
    rw [found_cons_of_ne (fun place => volume.held (inum, place)) empty, nodup_cons]
    refine ⟨fun again => ?_, ih nodup⟩
    obtain ⟨-, other, member, same⟩ := mem_found_iff.mp again
    obtain rfl : place = other :=
      congrArg Prod.snd (sound.exclusive (inum, place) (inum, other) empty same.symm)
    exact notIn member

theorem Fs.clear_singleton (fs : Fs) (block : Blockno) :
    fs.clear [block] = fs.setBit block false := by
  rw [← clear_cons, clear_nil]

/-- Without an indirect block the direct blocks are all there is to forget. -/
theorem Inode.forget_directs {inode : Inode} (none : inode.addrs indirect = 0) :
    inode.forget directs = { inode with addrs := fun _ => 0 } := by
  rw [forget]
  congr 2
  funext index
  split
  · rfl
  · rename_i notDirect
    obtain rfl : index = indirect := by
      by_contra ne
      exact notDirect (mem_directs ne)
    exact none

theorem Inode.forget_all (inode : Inode) :
    (inode.forget directs).setAddr indirect 0 = { inode with addrs := fun _ => 0 } := by
  rw [forget, setAddr]
  congr 2
  funext index
  by_cases last : index = indirect
  · simp [last]
  · rw [update_of_ne last]
    simp [mem_directs last]

/-- The end of `itrunc`, once the addresses are forgotten. -/
theorem runs_forgetSize {change : Inode → Inode}
    (forgotten : change (fs.icache ip) = { fs.icache ip with addrs := fun _ => 0 }) :
    Runs (do
        update fun fs => fs.setInode ip fun inode => { inode with size := 0 }
        iupdate ip) (fs.setInode ip change) ()
      ((fs.setInode ip fun inode => { inode with size := 0, addrs := fun _ => 0 }).setDinode
        (fs.icache ip).inum { (fs.icache ip).toDinode with size := 0, addrs := fun _ => 0 }) := by
  rw [runs_bind]
  refine ⟨(), _, runs_update.mpr rfl, ?_⟩
  rw [iupdate, runs_update, setInode_setInode, icache_setInode_self, forgotten]
  congr 1
  exact setInode_congr (by rw [forgotten])

section Itrunc

variable (live : (fs.icache ip).type ≠ .free)

include live

/-- The blocks that the in-core inode keeps, in the order of `itrunc`. -/
theorem blocks_edited :
    (fs.edited ip).blocks (fs.icache ip).inum = found (fs.icache ip).addrs directs ++
      if (fs.icache ip).addrs indirect = 0 then []
      else found (fs.data ((fs.icache ip).addrs indirect)).word (finRange words) ++
        [(fs.icache ip).addrs indirect] := by
  have node := node_edited fs ip
  have alive : ((fs.edited ip).nodes (fs.icache ip).inum).type ≠ .free := by
    rw [node]
    exact live
  have addr index : (fs.edited ip).held ((fs.icache ip).inum, .addr index) =
      (fs.icache ip).addrs index := by
    rw [held_addr alive, node]
  rw [blocks, visited, found_append, found_append, found_map, found_map, append_assoc]
  simp only [addr]
  split
  · rename_i none
    have entries index : (fs.edited ip).held ((fs.icache ip).inum, .entry index) = 0 :=
      held_entry_of_no_table (by rw [node]; exact none) index
    simp only [entries]
    simp [found, pointer, addr, none]
  · rename_i table
    have entries index : (fs.edited ip).held ((fs.icache ip).inum, .entry index) =
        (fs.data ((fs.icache ip).addrs indirect)).word index := by
      rw [held_entry alive (by rw [node]; exact table), node]
      rfl
    simp only [entries]
    rw [found_cons_of_ne (fun place => (fs.edited ip).held ((fs.icache ip).inum, place))
      (by rw [pointer, addr]; exact table), pointer, addr]
    rfl

variable (laid : Volume.Laid fs.sb (fs.edited ip))

include laid

/-- `itrunc` discards the contents of the inode, in the cache and on the disk. -/
theorem runs_itrunc :
    Runs (itrunc ip) fs () (((fs.clear ((fs.edited ip).blocks (fs.icache ip).inum)).setInode ip
      fun inode => { inode with size := 0, addrs := fun _ => 0 }).setDinode (fs.icache ip).inum
        { (fs.icache ip).toDinode with size := 0, addrs := fun _ => 0 }) := by
  have nodup : ((fs.edited ip).blocks (fs.icache ip).inum).Nodup :=
    laid.sound.nodup_found _ nodup_visited
  have marked block (member : block ∈ (fs.edited ip).blocks (fs.icache ip).inum) :
      fs.bitmap block = true := by
    obtain ⟨used, place, rfl⟩ := mem_blocks_iff.mp member
    exact laid.sound.mark_held used
  have blocks_eq := blocks_edited live
  rw [blocks_eq] at nodup marked
  obtain ⟨nodupDirect, nodupRest, apart⟩ := nodup_append.mp nodup
  have freed := runs_freeDirect nodup_directs nodupDirect fun block member =>
    marked block (mem_append_left _ member)
  have indirect_eq : ((fs.icache ip).forget directs).addrs indirect =
      (fs.icache ip).addrs indirect := by
    simp only [forget, if_neg indirect_not_mem_directs]
  unfold itrunc
  rw [blocks_eq, runs_bind]
  refine ⟨(), _, freed, ?_⟩
  rw [runs_bind]
  refine ⟨_, _, runs_reading.mpr ⟨rfl, rfl⟩, ?_⟩
  rw [icache_setInode_self, icache_clear, indirect_eq, runs_bind]
  by_cases none : (fs.icache ip).addrs indirect = 0
  · -- there is no indirect block
    rw [if_pos none, append_nil]
    refine ⟨(), _, runs_whenever.mpr (.inr ⟨not_not.mpr none, rfl⟩), ?_⟩
    exact runs_forgetSize (forget_directs none)
  rw [if_neg none] at nodupRest apart marked ⊢
  have stays block
      (member : block ∈ found (fs.data ((fs.icache ip).addrs indirect)).word (finRange words) ++
      [(fs.icache ip).addrs indirect]) :
      (fs.clear (found (fs.icache ip).addrs directs)).bitmap block = true := by
    have notFreed : block ∉ found (fs.icache ip).addrs directs :=
      fun again => apart block again block member rfl
    simp [clear, marked block (mem_append_right _ member), notFreed]
  obtain ⟨nodupTable, -, tableApart⟩ := nodup_append.mp nodupRest
  have table : Runs (freeTable (fs.data ((fs.icache ip).addrs indirect)) (finRange words))
      ((fs.clear (found (fs.icache ip).addrs directs)).setInode ip (·.forget directs)) ()
      (((fs.clear (found (fs.icache ip).addrs directs)).setInode ip (·.forget directs)).clear
        (found (fs.data ((fs.icache ip).addrs indirect)).word (finRange words))) :=
    runs_freeTable _ nodupTable fun block member => stays block (mem_append_left _ member)
  have last : (((fs.clear (found (fs.icache ip).addrs directs)).setInode ip
      (·.forget directs)).clear (found (fs.data ((fs.icache ip).addrs indirect)).word
        (finRange words))).bitmap ((fs.icache ip).addrs indirect) = true := by
    have notFreed : (fs.icache ip).addrs indirect ∉
        found (fs.data ((fs.icache ip).addrs indirect)).word (finRange words) :=
      fun again => tableApart _ again _ (mem_singleton_self _) rfl
    have isMarked := stays _ (mem_append_right _ (mem_singleton_self _))
    rw [clear]
    simp only [setInode, isMarked, notFreed]
    rfl
  refine ⟨(), (fs.clear _).setInode ip fun inode => (inode.forget directs).setAddr indirect 0,
    runs_whenever.mpr (.inl ⟨none, ?_⟩), runs_forgetSize (forget_all _)⟩
  rw [runs_bind]
  refine ⟨_, _, runs_reading.mpr ⟨rfl, rfl⟩, ?_⟩
  rw [runs_bind]
  refine ⟨(), _, table, ?_⟩
  rw [runs_bind]
  refine ⟨(), _, runs_bfree last, ?_⟩
  rw [runs_update, ← clear_singleton, clear_append, clear_setInode, clear_append, setInode_setInode]

end Itrunc

end Xv6.FileSystem
