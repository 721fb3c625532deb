import Xv6.FileSystem.Directory
import Xv6.Mkfs.Build

/-!
# When the image is consistent

Every image that `mkfs` finishes has its blocks in order.  What can go wrong is the
fix-up of the root directory, which adds an empty block to a directory that fills its
blocks, and the number of inodes, which `ialloc` does not check.
-/

namespace Xv6.Mkfs

open Xv6.FileSystem (Dirent FileType BlockPlace Volume direntSize dirsiz length_padName maxfile
  rootino)
open Xv6.Log (Blockno)
open Prog

variable {state target : State} {root : List Byte} {files : List (List Byte)}

/-! ## The free map -/

/-- A bit of the free map. -/
def bitOf (buf : Block) (index : Nat) : Bool :=
  (buf.byteAt (index / 8)).getLsbD (index % 8)

theorem bitOf_setBit (buf : Block) {index other : Nat} (bound : other < bsize * 8) :
    bitOf (setBit buf index) other = (bitOf buf other || decide (other = index)) := by
  have inside : other / 8 < bsize := Nat.div_lt_of_lt_mul (by omega)
  unfold bitOf Block.byteAt setBit
  rw [dif_pos inside, dif_pos inside]
  by_cases same : other / 8 = index / 8
  · rw [if_pos same, BitVec.getLsbD_or]
    have bit : other % 8 < 8 := Nat.mod_lt _ (by decide)
    by_cases eq : other = index
    · subst eq
      simp [bit]
    simp only [eq]
    by_cases below : other % 8 < index % 8
    · simp [below]
    · have positive : other % 8 - index % 8 ≠ 0 := by omega
      simp [positive]
  · rw [if_neg same]
    have ne : other ≠ index := fun eq => same (by rw [eq])
    simp [ne]

theorem bitOf_usedBits (used : Nat) {index : Nat} (bound : index < bsize * 8) :
    bitOf (usedBits used) index = decide (index < used) := by
  induction used with
  | zero => simp [usedBits, bitOf, Block.byteAt]
  | succ used ih =>
    have step : usedBits (used + 1) = setBit (usedBits used) used := by
      rw [usedBits, List.range_succ, List.foldl_concat]
      rfl
    rw [step, bitOf_setBit _ bound, ih, ← Bool.decide_or]
    exact decide_eq_decide.mpr (by omega)

/-! ## The finished image -/

/-- Writing the free map changes no inode and no data block. -/
theorem volume_write_bmapstart (state : State) (buf : Block) :
    (state.write bmapstart buf).volume = state.volume := by
  refine Volume.ext ?_ rfl ?_
  · funext inum
    simp only [State.volume]
    split
    · rename_i bound
      have inside := iblock_of_lt bound
      simp only [State.dinode, State.write]
      rw [Function.update_of_ne (by omega)]
    · rfl
  · funext block
    simp only [State.volume]
    split
    · have := bmapstart_lt
      simp only [State.write]
      rw [Function.update_of_ne (by omega)]
    · rfl

theorem Built.size_root (built : Built state root files) :
    (state.dinode rootino).size.toNat = root.length := by
  have size_eq := built.rootAt.size_eq
  exact size_eq

theorem Built.volume_finish (built : Built state root files) :
    state.finish.volume = state.volume.resize rootino (roundUp root.length) := by
  have inside : rootino < capacity := by decide
  have small : roundUp root.length < 2 ^ 32 := by
    have := built.rootAt.small
    unfold roundUp maxfile FileSystem.ndirect FileSystem.nindirect Block.words bsize at *
    omega
  rw [State.finish, volume_write_bmapstart, State.fixed, State.store,
    State.volume_write_dinode inside, built.size_root, State.edited_size _ small,
    State.edited_dinode inside]

theorem Built.sectors_finish (state : State) :
    state.finish.sectors bmapstart = usedBits state.freeblock := by
  simp [State.finish, State.write]

/-! ## Consistency -/

/-- The invariant that the kernel relies on, for the inodes that `mkfs` has allocated. -/
structure Consistent (state : State) : Prop where
  mapped : ∀ inum, 1 ≤ inum → inum < state.freeinode → ∀ bn,
    bn * bsize < (state.volume.nodes inum).size → state.volume.blockOf inum bn ≠ 0 ∧
      nmeta ≤ (state.volume.blockOf inum bn).toNat ∧
      (state.volume.blockOf inum bn).toNat < fssize
  exclusive : ∀ key other, state.volume.held key ≠ 0 →
    state.volume.held key = state.volume.held other → key = other
  bitmap : ∀ index < bsize * 8,
    (bitOf (state.sectors bmapstart) index = true ↔ index < state.freeblock)
  freeblock : state.freeblock ≤ fssize
  inodes : ∀ inum, 1 ≤ inum → inum < state.freeinode →
    inum < ninodes ∧ inodestart ≤ iblock inum ∧ iblock inum < bmapstart

/-- The blocks of an image that is built are data blocks. -/
theorem Built.inside (built : Built state root files) {inum bn : Nat}
    (used : state.volume.blockOf inum bn ≠ 0) : state.volume.blockOf inum bn ≠ 0 ∧
      nmeta ≤ (state.volume.blockOf inum bn).toNat ∧
      (state.volume.blockOf inum bn).toNat < fssize := by
  obtain ⟨place, -, -, block_eq⟩ := Volume.exists_place_of_blockOf used
  rw [block_eq] at used ⊢
  exact ⟨used, built.stable.sound.inside _ used⟩

/-- After the fix-up every block of the root directory is there unless the entries fill their
blocks. -/
theorem Built.mapped_root_iff (built : Built state root files) :
    (∀ bn, bn * bsize < roundUp root.length → state.volume.blockOf rootino bn ≠ 0) ↔
      root.length % bsize ≠ 0 := by
  have small := built.rootAt.small
  constructor
  · intro mapped full
    have used := mapped (root.length / bsize) (by unfold roundUp bsize; omega)
    obtain ⟨place, at_bn, -, -⟩ := Volume.exists_place_of_blockOf used
    rw [built.rootAt.exact.blockOf (FileSystem.lt_maxfile_of_placeOf at_bn),
      blockCount_of_mod_eq full] at used
    exact Nat.lt_irrefl _ used
  · intro inside bn bound
    refine (built.rootAt.exact.blockOf ?_).mpr ?_
    · unfold roundUp bsize at *
      omega
    · rw [blockCount_of_mod_ne inside]
      unfold roundUp bsize at *
      omega

theorem Built.consistent_finish_iff (built : Built state root files)
    (few : files.length + 1 < ninodes) :
    Consistent state.finish ↔ root.length % bsize ≠ 0 := by
  have volume_eq := built.volume_finish
  have freeinode : state.finish.freeinode = files.length + 2 := built.freeinode
  rw [← built.mapped_root_iff]
  constructor
  · intro consistent bn bound
    have mapped := consistent.mapped rootino (Nat.le_refl 1) (by rw [rootino]; omega) bn
    rw [volume_eq, Volume.node_resize] at mapped
    exact (mapped bound).1
  · intro rootMapped
    refine ⟨fun inum low high bn bound => ?_, fun key other => ?_, fun index bound => ?_,
      built.stable.high, fun inum low high => ?_⟩
    · rw [volume_eq, Volume.blockOf_resize]
      refine built.inside ?_
      rw [volume_eq] at bound
      by_cases isRoot : inum = rootino
      · subst isRoot
        exact rootMapped bn bound
      rw [Volume.node_resize_of_ne _ isRoot] at bound
      have file := built.fileAt (inum - 2) (by unfold rootino at isRoot; omega)
      rw [show inum - 2 + 2 = inum by unfold rootino at isRoot; omega] at file
      exact file.mapped bn bound
    · rw [volume_eq, Volume.held_resize, Volume.held_resize]
      exact built.stable.sound.exclusive key other
    · rw [Built.sectors_finish, bitOf_usedBits _ bound, decide_eq_true_iff]
      rfl
    · have bound : inum < capacity := by
        have : ninodes < capacity := by decide
        omega
      exact ⟨by omega, iblock_of_lt bound⟩

/-! ## The root directory -/

section

variable (inum : Nat)

theorem length_entries (hostFiles : List HostFile) :
    (entries inum hostFiles).length = direntSize * hostFiles.length := by
  induction hostFiles generalizing inum with
  | nil => rfl
  | cons file rest ih =>
    rw [entries, List.length_append, ih, entryOf, Dirent.length_toBytes (length_padName _),
      List.length_cons, Nat.mul_succ, Nat.add_comm]

theorem length_rootBytes (hostFiles : List HostFile) :
    (rootBytes hostFiles).length = direntSize * (hostFiles.length + 2) := by
  rw [rootBytes, bareRoot, List.length_append, List.length_append, length_entries,
    Dirent.length_toBytes (length_padName _), Dirent.length_toBytes (length_padName _), Nat.mul_add]
  omega

/-! ## The number of inodes -/

/-- The counter of inodes stays. -/
def SameCount (state target : State) : Prop :=
  target.freeinode = state.freeinode

instance : Std.Refl SameCount := ⟨fun _ => rfl⟩

instance : IsTrans State SameCount := ⟨fun _ _ _ first second => second.trans first⟩

theorem keeps_wsect (sec : Nat) (buf : Block) : Keeps SameCount (wsect sec buf) :=
  keeps_update fun _ => rfl

theorem keeps_rsect (sec : Nat) : Keeps SameCount (rsect sec) :=
  keeps_bind keeps_ensure fun _ => keeps_reading

theorem keeps_winode (din : RawDinode) : Keeps SameCount (winode inum din) :=
  keeps_bind (keeps_rsect _) fun _ => keeps_wsect _ _

theorem keeps_rinode : Keeps SameCount (rinode inum) :=
  keeps_bind (keeps_rsect _) fun _ => keeps_pure

theorem keeps_nextBlock : Keeps SameCount nextBlock :=
  keeps_bind keeps_reading fun _ => keeps_bind (keeps_update fun _ => rfl) fun _ => keeps_pure

theorem keeps_mapAddr (din : RawDinode) (index : Fin (FileSystem.ndirect + 1)) :
    Keeps SameCount (mapAddr din index) :=
  keeps_ite (keeps_bind keeps_nextBlock fun _ => keeps_pure) keeps_pure

theorem keeps_mapEntry (table : Blockno) (index : Fin Block.words) :
    Keeps SameCount (mapEntry table index) := by
  refine keeps_bind (keeps_rsect _) fun buf => keeps_ite ?_ keeps_pure
  exact keeps_bind keeps_nextBlock fun _ => keeps_bind (keeps_wsect _ _) fun _ => keeps_pure

theorem keeps_mapBlock (din : RawDinode) (fbn : Nat) : Keeps SameCount (mapBlock din fbn) := by
  unfold mapBlock
  split
  · exact keeps_mapAddr _ _
  · split
    · exact keeps_bind (keeps_mapAddr _ _) fun _ => keeps_bind
        (keeps_mapEntry _ _) fun _ => keeps_pure
    · exact keeps_stop

theorem keeps_appendBlocks (turns : Nat) (din : RawDinode) (off : Nat) (p : List Byte) :
    Keeps SameCount (appendBlocks turns din off p) := by
  induction turns generalizing din off p with
  | zero => exact keeps_pure
  | succ turns ih =>
    refine keeps_ite keeps_pure (keeps_bind (keeps_mapBlock _ _) fun _ => ?_)
    exact keeps_bind (keeps_rsect _) fun _ => keeps_bind (keeps_wsect _ _) fun _ => ih _ _ _

theorem keeps_iappend (p : List Byte) : Keeps SameCount (iappend inum p) :=
  keeps_bind (keeps_rinode inum) fun _ => keeps_bind (keeps_appendBlocks _ _ _ _) fun _ =>
    keeps_winode _ _

theorem keeps_appendPieces (pieces : List Piece) :
    Keeps SameCount (appendPieces inum pieces) := by
  induction pieces with
  | nil => exact keeps_pure
  | cons piece rest ih => exact keeps_bind (keeps_iappend _ _) fun _ => ih

end

theorem keeps_zeroSectors (count : Nat) : Keeps SameCount (zeroSectors count) := by
  induction count with
  | zero => exact keeps_pure
  | succ count ih => exact keeps_bind ih fun _ => keeps_wsect _ _

theorem freeinode_of_ialloc {number : BitVec 16} {inum : Nat}
    (ran : Runs (ialloc number) state inum target) : target.freeinode = state.freeinode + 1 := by
  unfold ialloc at ran
  simp only [runs_bind, runs_reading, runs_update, runs_pure] at ran
  obtain ⟨_, _, ⟨rfl, rfl⟩, _, _, rfl, _, _, stored, -, rfl⟩ := ran
  exact keeps_winode _ _ _ _ _ stored

theorem freeinode_of_addFile {file : HostFile} (ran : Runs (addFile file) state () target) :
    target.freeinode = state.freeinode + 1 := by
  unfold addFile at ran
  simp only [runs_bind, runs_ensure] at ran
  obtain ⟨_, _, ⟨-, rfl⟩, ran⟩ := ran
  cases reads_eq : file.reads with
  | none => simp [reads_eq] at ran
  | some pieces =>
    simp only [reads_eq, runs_bind] at ran
    obtain ⟨inum, first, allocated, _, second, entered, copied⟩ := ran
    have count := freeinode_of_ialloc allocated
    have entry := keeps_iappend _ _ _ _ _ entered
    have contents := keeps_appendPieces _ _ _ _ _ copied
    exact contents.trans (entry.trans count)

theorem freeinode_of_addFiles {hostFiles : List HostFile}
    (ran : Runs (addFiles hostFiles) state () target) :
    target.freeinode = state.freeinode + hostFiles.length := by
  induction hostFiles generalizing state with
  | nil =>
    obtain ⟨-, rfl⟩ := runs_pure.mp ran
    rfl
  | cons file rest ih =>
    rw [addFiles, runs_bind] at ran
    obtain ⟨_, middle, added, ran⟩ := ran
    have count := freeinode_of_addFile added
    have others := ih ran
    rw [List.length_cons]
    omega

theorem freeinode_of_main {hostFiles : List HostFile}
    (ran : Runs (main hostFiles) State.start () target) :
    target.freeinode = hostFiles.length + 2 := by
  unfold main makeRoot fixRoot balloc at ran
  simp only [runs_bind, runs_ensure, runs_reading] at ran
  obtain ⟨_, _, zeroed, _, _, formatted, _, _,
    ⟨_, _, allocated, _, _, ⟨-, rfl⟩, _, _, first, second⟩, _, _, added, _, _,
    ⟨_, _, read, stored⟩, _, _, ⟨-, rfl⟩, _, _, ⟨-, rfl⟩, written⟩ := ran
  have := keeps_zeroSectors _ _ _ _ zeroed
  have := keeps_wsect _ _ _ _ _ formatted
  have := freeinode_of_ialloc allocated
  have := keeps_iappend _ _ _ _ _ first
  have := keeps_iappend _ _ _ _ _ second
  have := freeinode_of_addFiles added
  have := keeps_rinode _ _ _ _ read
  have := keeps_winode _ _ _ _ _ stored
  have := keeps_wsect _ _ _ _ _ written
  have : State.start.freeinode = 1 := rfl
  simp only [SameCount] at *
  omega

/-! ## The condition -/

/-- The number of directory entries that fill a block. -/
def entriesPerBlock : Nat := bsize / direntSize

/-- The image is consistent if and only if the inodes suffice and the entries of the root
directory do not fill their last block. -/
theorem consistent_iff {hostFiles : List HostFile}
    (ran : Runs (main hostFiles) State.start () target) :
    Consistent target ↔
      hostFiles.length + 1 < ninodes ∧ (hostFiles.length + 2) % entriesPerBlock ≠ 0 := by
  by_cases few : hostFiles.length + 1 < ninodes
  · have room : hostFiles.length + 2 ≤ capacity := by
      have : ninodes < capacity := by decide
      omega
    obtain ⟨middle, built, rfl⟩ := (main_spec hostFiles room).2 () target ran
    rw [built.consistent_finish_iff (by simpa using few), length_rootBytes]
    have mod_eq : direntSize * (hostFiles.length + 2) % bsize =
        direntSize * ((hostFiles.length + 2) % entriesPerBlock) :=
      Nat.mul_mod_mul_left direntSize (hostFiles.length + 2) entriesPerBlock
    rw [mod_eq]
    have positive : direntSize ≠ 0 := by decide
    simp [few, positive]
  · refine ⟨fun consistent => (few ?_).elim, fun condition => (few condition.1).elim⟩
    have freeinode := freeinode_of_main ran
    exact (consistent.inodes (hostFiles.length + 1) (by omega) (by omega)).1

/-! ## Files without contents -/

/-- An empty file with a name of one letter. -/
def emptyFile (index : Fin 30) : HostFile where
  name := [BitVec.ofNat 8 (0x61 + index.val)]
  cstring := by
    revert index
    decide
  reads := some []

/-- Empty files need no blocks. -/
theorem not_overfull_emptyFiles (indices : List (Fin 30)) (few : indices.length ≤ 30) :
    ¬Overfull (rootBytes (indices.map emptyFile))
      ((indices.map emptyFile).map HostFile.contents) := by
  have contents bytes (member : bytes ∈ (indices.map emptyFile).map HostFile.contents) :
      bytes = [] := by
    rw [List.map_map] at member
    obtain ⟨index, -, rfl⟩ := List.mem_map.mp member
    rfl
  have blocks : blocksOf ((indices.map emptyFile).map HostFile.contents) = 0 := by
    refine List.sum_eq_zero fun count member => ?_
    obtain ⟨bytes, inside, rfl⟩ := List.mem_map.mp member
    rw [contents bytes inside]
    rfl
  have length : (rootBytes (indices.map emptyFile)).length ≤ bsize := by
    rw [length_rootBytes, List.length_map]
    unfold direntSize dirsiz bsize
    omega
  have one := demand_mono length
  rintro (needed | large | ⟨bytes, member, large⟩)
  · have : fssize = 1000 := rfl
    have : nmeta = 59 := rfl
    have : demand bsize = 1 := rfl
    omega
  · have : bsize ≤ maxfile * bsize := by decide
    omega
  · rw [contents bytes member] at large
    exact (Nat.not_lt_zero _ large).elim

/-- `mkfs` finishes on empty files. -/
theorem exists_runs_emptyFiles (indices : List (Fin 30)) (few : indices.length ≤ 30) :
    ∃ middle, Built middle (rootBytes (indices.map emptyFile))
        ((indices.map emptyFile).map HostFile.contents) ∧
      Runs (main (indices.map emptyFile)) State.start () middle.finish := by
  have room : (indices.map emptyFile).length + 2 ≤ capacity := by
    have : 32 ≤ capacity := by decide
    rw [List.length_map]
    omega
  have each : ∀ index, (emptyFile index).Readable := by
    unfold HostFile.Readable
    decide
  have readable file (member : file ∈ indices.map emptyFile) : file.Readable := by
    obtain ⟨index, -, rfl⟩ := List.mem_map.mp member
    exact each index
  exact exists_runs_main room readable (not_overfull_emptyFiles indices few)

/-- With three files the image is consistent. -/
theorem consistent_three : ∃ target,
    Runs (main ([0, 1, 2].map emptyFile)) State.start () target ∧ Consistent target := by
  obtain ⟨middle, -, ran⟩ := exists_runs_emptyFiles [0, 1, 2] (by decide)
  exact ⟨middle.finish, ran, (consistent_iff ran).mpr (by decide)⟩

/-- With thirty files the root directory fills its block, and the fix-up adds a block that is
not there. -/
theorem inconsistent_thirty : ∃ target,
    Runs (main ((List.finRange 30).map emptyFile)) State.start () target ∧ ¬Consistent target := by
  obtain ⟨middle, built, ran⟩ := exists_runs_emptyFiles (List.finRange 30) (by simp)
  refine ⟨middle.finish, ran, fun consistent => ?_⟩
  rw [built.consistent_finish_iff (by simp [ninodes]), length_rootBytes] at consistent
  simp [direntSize, dirsiz, bsize] at consistent

end Xv6.Mkfs
