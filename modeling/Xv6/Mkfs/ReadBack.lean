import Mathlib.Data.List.TakeWhile
import Xv6.FileSystem.Integrity
import Xv6.Mkfs.Consistency

/-!
# Reading the image back

The kernel finds the regions of the disk through the superblock that `mkfs` wrote, and
reads each file of the host and its entry in the root directory back from the image.
-/

namespace Xv6.Mkfs

open Xv6.FileSystem (Dinode Dirent Fs FsM Image Islot Superblock Volume boot cstring direntSize
  dirsiz iget ilock length_padName maxfile padName readi rootino)
open Xv6.Log (Blockno)
open Prog

variable {state : State} {root : List Byte} {files : List (List Byte)}

/-! ## The disk of the kernel -/

/-- A field of the superblock, in sector 1. -/
def State.field (state : State) (index : Nat) : Nat :=
  ((state.sectors 1).word (Block.wordIndex index)).toNat

/-- The disk that the kernel finds in the image: the inodes from `sb.inodestart` up to
`sb.bmapstart`, the free map from there on, and the last `sb.nblocks` blocks. -/
def State.image (state : State) : Image where
  sb := ⟨state.field 0, state.field 1, state.field 2⟩
  inodes := fun inum =>
    if inum / ipb + state.field 5 < state.field 6 then
      (dinodeIn (state.sectors (inum / ipb + state.field 5)) inum).toDinode
    else
      Dinode.zero .free
  bitmap := fun block =>
    bitOf (state.sectors (block.toNat / (bsize * 8) + state.field 6)) (block.toNat % (bsize * 8))
  data := fun block =>
    if state.field 0 - state.field 1 ≤ block.toNat then state.sectors block.toNat else fun _ => 0

section

variable (super : state.sectors 1 = superblock)

include super

theorem field_eq :
    state.field 0 = fssize ∧ state.field 1 = nblocks ∧ state.field 2 = ninodes ∧
      state.field 5 = inodestart ∧ state.field 6 = bmapstart := by
  unfold State.field
  rw [super]
  decide

theorem image_inodes : state.image.inodes = state.volume.nodes := by
  obtain ⟨-, -, -, start, map⟩ := field_eq super
  funext inum
  have bound_iff : inum / ipb + inodestart < bmapstart ↔ inum < capacity := by
    rw [capacity, ← Nat.div_lt_iff_lt_mul (by decide)]
    unfold bmapstart inodestart
    omega
  simp only [State.image, start, map, bound_iff]
  rfl

theorem image_data : state.image.data = state.volume.data := by
  obtain ⟨size, blocks, -, -, -⟩ := field_eq super
  simp only [State.image, size, blocks]
  rfl

end

theorem Built.super_finish (built : Built state root files) :
    state.finish.sectors 1 = superblock := by
  have inside : rootino < capacity := by decide
  have ne : (1 : Nat) ≠ bmapstart := by decide
  rw [← built.super, State.finish, State.write]
  simp only [Function.update_of_ne ne]
  exact State.sectors_store _ inside (.inl (by decide))

/-! ## Reading a file -/

/-- Look up an inode by its number and read from it: its size, and what `readi` returns. -/
def readFile (inum off n : Nat) : FsM (Nat × Option (List Byte)) := do
  let ip ← iget rootdev inum
  ilock ip
  let size ← reading fun fs => (fs.icache ip).size
  let bytes ← readi none ip off n
  pure (size, bytes)

/-- `iget` finds a slot while one is empty. -/
theorem exists_runs_iget {fs : Fs} {slot : Islot} (empty : (fs.icache slot).ref = 0)
    (dev inum : Nat) : ∃ ip target, Runs (iget dev inum) fs ip target := by
  unfold iget
  simp only [runs_bind, runs_reading]
  cases cached : (List.finRange FileSystem.ninode).find? fun ip =>
      0 < (fs.icache ip).ref ∧ (fs.icache ip).dev = dev ∧ (fs.icache ip).inum = inum with
  | some ip =>
    refine ⟨ip, fs.setInode ip fun inode => { inode with ref := inode.ref + 1 }, some ip, fs,
      ⟨rfl, rfl⟩, ?_⟩
    simp only [runs_bind, runs_update, runs_pure]
    exact ⟨(), _, rfl, trivial, rfl⟩
  | none =>
    cases found : (List.finRange FileSystem.ninode).find? fun ip => (fs.icache ip).ref = 0 with
    | none =>
      rw [List.find?_eq_none] at found
      exact (found slot (List.mem_finRange slot) (by simpa using empty)).elim
    | some ip =>
      refine ⟨ip, fs.setInode ip fun inode =>
        { inode with dev := dev, inum := inum, ref := 1, valid := false }, none, fs,
        ⟨rfl, rfl⟩, ?_⟩
      simp only [runs_bind, runs_reading]
      refine ⟨some ip, fs, ⟨found, rfl⟩, ?_⟩
      simp only [runs_bind, runs_update, runs_pure]
      exact ⟨(), _, rfl, trivial, rfl⟩

/-- At boot no inode is in the cache. -/
theorem invalid_boot (image : Image) (ip : Islot) :
    ((boot image).fs.icache ip).valid = false ∧ ((boot image).fs.icache ip).locked = false := by
  by_cases first : ip = 0 <;> simp [boot, first, FileSystem.Inode.zero]

variable {inum : Nat}

/-- At boot every inode is read from the disk. -/
theorem exists_locked {image : Image} (live : (image.inodes inum).type ≠ .free) :
    ∃ ip middle target, Runs (iget rootdev inum) (boot image).fs ip middle ∧
      Runs (ilock ip) middle () target ∧ (target.icache ip).toDinode = image.inodes inum ∧
      (target.icache ip).inum = inum ∧ target.inodes = image.inodes ∧
      target.data = image.data := by
  have empty : ((boot image).fs.icache 1).ref = 0 := rfl
  obtain ⟨ip, middle, got⟩ := exists_runs_iget empty rootdev inum
  obtain ⟨invalid, unlocked⟩ := invalid_boot image ip
  have slot : 1 ≤ (middle.icache ip).ref ∧ (middle.icache ip).locked = false ∧
      (middle.icache ip).valid = false ∧ (middle.icache ip).inum = inum ∧
      middle.inodes = image.inodes ∧ middle.data = image.data := by
    rcases FileSystem.runs_iget got with ⟨used, -, inum_eq, rfl⟩ | ⟨-, -, rfl⟩
    · simp only [Fs.icache_setInode_self]
      exact ⟨by omega, unlocked, invalid, inum_eq, rfl, rfl⟩
    · simp only [Fs.icache_setInode_self]
      exact ⟨Int.le_refl 1, unlocked, trivial, trivial, rfl, rfl⟩
  obtain ⟨used, unlocked, invalid, inum_eq, inodes, data⟩ := slot
  have typed : (middle.inodes (middle.icache ip).inum).type ≠ .free := by
    rwa [inodes, inum_eq]
  refine ⟨ip, middle, _, got, FileSystem.runs_ilock.mpr
    ⟨used, unlocked, .inr ⟨invalid, typed, rfl⟩⟩, ?_, ?_, inodes, data⟩
  · rw [Fs.icache_setInode_self]
    simp only [inum_eq, inodes]
  · rw [Fs.icache_setInode_self]
    exact inum_eq

variable {off n : Nat}

/-- Reading a part of a file whose blocks are on the disk. -/
theorem exists_runs_readFile {image : Image} {volume : Volume} (nodes : image.inodes = volume.nodes)
    (data : image.data = volume.data)
    (regular : (volume.nodes inum).type = .file ∨ (volume.nodes inum).type = .dir)
    (within : off ≤ (volume.nodes inum).size) (noOverflow : off + n < 2 ^ 32)
    (mapped : ∀ pos, off ≤ pos → pos < off + min n ((volume.nodes inum).size - off) →
      volume.blockOf inum (pos / bsize) ≠ 0) :
    ∃ target, Runs (readFile inum off n) (boot image).fs ((volume.nodes inum).size,
      some ((List.range (min n ((volume.nodes inum).size - off))).map fun index =>
        volume.byteOf inum (off + index))) target := by
  have live : (image.inodes inum).type ≠ .free := by
    rw [nodes]
    rcases regular with isFile | isDir
    · simp [isFile]
    · simp [isDir]
  obtain ⟨ip, middle, target, got, locked, node, inum_eq, inodes, data'⟩ := exists_locked live
  have clean : (target.icache ip).toDinode = target.inodes (target.icache ip).inum := by
    rw [node, inodes, inum_eq]
  have size_eq : (target.icache ip).size = (volume.nodes inum).size := by
    rw [node, nodes]
  have type_eq : (target.icache ip).type = (volume.nodes inum).type := by
    rw [node, nodes]
  have nodes_eq : target.volume.nodes = volume.nodes := inodes.trans nodes
  have data_eq : target.volume.data = volume.data := data'.trans data
  have blockAt bn : target.blockAt ip bn = volume.blockOf inum bn := by
    rw [Fs.blockAt, Fs.edited_eq clean, inum_eq, Volume.blockOf_congr nodes_eq data_eq]
  have byteAt pos : target.byteAt ip pos = volume.byteOf inum pos := by
    rw [Fs.byteAt, Fs.edited_eq clean, inum_eq, Volume.byteOf_congr nodes_eq data_eq]
  refine ⟨target, ?_⟩
  unfold readFile
  simp only [runs_bind, runs_reading, runs_pure]
  refine ⟨ip, middle, got, (), target, locked, _, target, ⟨rfl, rfl⟩, _, target,
    FileSystem.runs_readi ?_ ?_ ?_ ?_, ?_, rfl⟩
  · rw [type_eq]
    rcases regular with isFile | isDir
    · simp [isFile]
    · simp [isDir]
  · rwa [size_eq]
  · unfold FileSystem.Overflows
    omega
  · intro pos above below
    rw [blockAt]
    rw [size_eq] at below
    exact mapped pos above below
  · simp only [size_eq, byteAt]

/-- Reading within a part of a file whose bytes are known. -/
theorem range_map_eq_take_drop {byteAt : Nat → Byte} {bytes : List Byte}
    (known : ∀ pos (bound : pos < bytes.length), byteAt pos = bytes[pos]) :
    (List.range (min n (bytes.length - off))).map (fun index => byteAt (off + index)) =
      (bytes.drop off).take n := by
  refine List.ext_getElem ?_ fun index bound bound' => ?_
  · simp
  · simp only [List.length_map, List.length_range] at bound
    simp only [List.getElem_map, List.getElem_range, List.getElem_take, List.getElem_drop]
    exact known _ (by omega)

variable {index : Nat}

section

variable (built : Built state root files)

include built

/-- The files of a finished image. -/
theorem Built.fileAt_finish (bound : index < files.length) :
    FileAt state.finish.volume (index + 2) .file files[index] := by
  rw [built.volume_finish]
  refine (built.fileAt index bound).frame ?_ (fun place => ?_) fun place _ => rfl
  · exact Volume.node_resize_of_ne _ (by unfold rootino; omega) _
  · exact Volume.held_resize ..

/-- A file is read back from a finished image. -/
theorem Built.exists_runs_readFile (bound : index < files.length)
    (within : off ≤ files[index].length) (noOverflow : off + n < 2 ^ 32) :
    ∃ target, Runs (readFile (index + 2) off n) (boot state.finish.image).fs
      (files[index].length, some ((files[index].drop off).take n)) target := by
  have file := built.fileAt_finish bound
  have size_eq := file.size_eq
  have read := Mkfs.exists_runs_readFile (image_inodes built.super_finish)
    (image_data built.super_finish) (.inl file.type_eq) (size_eq ▸ within) noOverflow
    fun pos _ below => file.blockOf (by omega)
  rwa [size_eq, range_map_eq_take_drop fun pos bound => file.byteOf bound] at read

/-- The entries of the root directory are read back from a finished image. -/
theorem Built.exists_runs_readRoot (within : off + n ≤ root.length) :
    ∃ target, Runs (readFile rootino off n) (boot state.finish.image).fs
      (roundUp root.length, some ((root.drop off).take n)) target := by
  have file := built.rootAt
  have larger : root.length ≤ roundUp root.length := by
    unfold roundUp bsize
    omega
  have small : root.length < 2 ^ 32 := Nat.lt_of_le_of_lt file.small (by decide)
  have node : state.finish.volume.nodes rootino =
      { state.volume.nodes rootino with size := roundUp root.length } := by
    rw [built.volume_finish, Volume.node_resize]
  have size_eq : (state.finish.volume.nodes rootino).size = roundUp root.length := by
    rw [node]
  have count_eq : min n (roundUp root.length - off) = min n (root.length - off) := by omega
  have within' : off ≤ (state.finish.volume.nodes rootino).size := by
    omega
  have noOverflow : off + n < 2 ^ 32 := by omega
  have read := Mkfs.exists_runs_readFile (image_inodes built.super_finish)
    (image_data built.super_finish) (.inr (by rw [node]; exact file.type_eq)) within' noOverflow
    fun pos _ below => by
      rw [built.volume_finish]
      exact file.blockOf (by omega)
  simp only [built.volume_finish, Volume.byteOf_resize, Volume.node_resize, count_eq] at read
  rwa [range_map_eq_take_drop fun pos bound => file.byteOf bound] at read

end

/-! ## Names -/

/-- The name field of a directory entry: the first bytes of the name, and zeros. -/
def nameField (name : List Byte) : List Byte :=
  name.take dirsiz ++ List.replicate (dirsiz - name.length) 0

variable {name : List Byte}

theorem padName_eq_nameField (nonzero : 0 ∉ name) : padName name = nameField name := by
  have whole : cstring name = name.take dirsiz := by
    unfold cstring
    rw [List.takeWhile_eq_self_iff]
    intro byte member
    have : byte ≠ 0 := fun zero => nonzero (zero ▸ List.mem_of_mem_take member)
    simpa using this
  rw [padName, whole, List.length_take]
  congr 2
  omega

theorem not_mem_strip (nonzero : 0 ∉ name) : 0 ∉ strip name := by
  cases name with
  | nil => exact nonzero
  | cons first rest =>
    rw [strip]
    split
    · exact fun member => nonzero (List.mem_cons_of_mem _ member)
    · exact nonzero

theorem take_drop_entries (inum : Nat) (hostFiles : List HostFile)
    (bound : index < hostFiles.length) :
    ((entries inum hostFiles).drop (direntSize * index)).take direntSize =
      entryOf (inum + index) hostFiles[index] := by
  induction hostFiles generalizing inum index with
  | nil => exact (Nat.not_lt_zero _ bound).elim
  | cons file rest ih =>
    have length : (entryOf inum file).length = direntSize :=
      Dirent.length_toBytes (length_padName _)
    cases index with
    | zero =>
      rw [entries, Nat.mul_zero, List.drop_zero, ← length, List.take_left]
      rfl
    | succ index =>
      rw [entries, Nat.mul_succ, Nat.add_comm, ← List.drop_drop, ← length, List.drop_left, length,
        ih (inum + 1) (Nat.lt_of_succ_lt_succ bound), List.getElem_cons_succ,
        Nat.add_assoc, Nat.add_comm 1]

theorem take_drop_rootBytes (hostFiles : List HostFile) (bound : index < hostFiles.length) :
    ((rootBytes hostFiles).drop (direntSize * (index + 2))).take direntSize =
      entryOf (index + 2) hostFiles[index] := by
  have length : bareRoot.length = direntSize * 2 := rfl
  rw [rootBytes, Nat.mul_add, Nat.add_comm, ← List.drop_drop, ← length, List.drop_left,
    take_drop_entries 2 hostFiles bound, Nat.add_comm]

/-! ## The files of the host -/

/-- The inodes, the sizes and the blocks suffice for the files and for the root directory. -/
def Fits (hostFiles : List HostFile) : Prop :=
  hostFiles.length + 1 ≤ ninodes ∧
    (∀ file ∈ hostFiles, file.contents.length ≤ maxfile * bsize) ∧
    nmeta + demand (direntSize * (hostFiles.length + 2)) +
      blocksOf (hostFiles.map HostFile.contents) ≤ fssize

theorem Fits.not_overfull {hostFiles : List HostFile} (fits : Fits hostFiles) :
    ¬Overfull (rootBytes hostFiles) (hostFiles.map HostFile.contents) := by
  obtain ⟨few, small, blocks⟩ := fits
  rintro (needed | large | ⟨bytes, member, large⟩)
  · rw [length_rootBytes] at needed
    omega
  · rw [length_rootBytes] at large
    unfold direntSize dirsiz maxfile FileSystem.ndirect FileSystem.nindirect Block.words bsize
      ninodes at *
    omega
  · obtain ⟨file, inside, rfl⟩ := List.mem_map.mp member
    have := small file inside
    omega

/-- The kernel reads every file of the host and its directory entry back from the image. -/
theorem readsBack {hostFiles : List HostFile} (named : ∀ file ∈ hostFiles, 0x2f ∉ file.name)
    (opened : ∀ file ∈ hostFiles, file.reads.isSome) (fits : Fits hostFiles) :
    ∃ state, Runs (main hostFiles) State.start () state ∧
      ∀ index (bound : index < hostFiles.length),
        (∀ off n, off ≤ hostFiles[index].contents.length → off + n < 2 ^ 32 →
          ∃ target, Runs (readFile (index + 2) off n) (boot state.image).fs
            (hostFiles[index].contents.length,
              some ((hostFiles[index].contents.drop off).take n)) target) ∧
        ∃ size target, Runs (readFile rootino (direntSize * (index + 2)) direntSize)
          (boot state.image).fs
          (size, some (Dirent.toBytes ⟨index + 2, nameField (strip hostFiles[index].name)⟩))
          target := by
  have room : hostFiles.length + 2 ≤ capacity := by
    have : ninodes < capacity := by decide
    have := fits.1
    omega
  obtain ⟨middle, built, ran⟩ := exists_runs_main room
    (fun file member => ⟨named file member, opened file member⟩) fits.not_overfull
  refine ⟨middle.finish, ran, fun index bound => ⟨fun off n within noOverflow => ?_, ?_⟩⟩
  · have bound' : index < (hostFiles.map HostFile.contents).length := by
      rwa [List.length_map]
    have within' : off ≤ (hostFiles.map HostFile.contents)[index].length := by
      rwa [List.getElem_map]
    have read := built.exists_runs_readFile bound' within' noOverflow
    simpa only [List.getElem_map] using read
  · have within : direntSize * (index + 2) + direntSize ≤ (rootBytes hostFiles).length := by
      rw [length_rootBytes, ← Nat.mul_succ]
      exact Nat.mul_le_mul_left _ (by omega)
    obtain ⟨target, read⟩ := built.exists_runs_readRoot within
    rw [take_drop_rootBytes hostFiles bound, entryOf,
      padName_eq_nameField (not_mem_strip hostFiles[index].cstring)] at read
    exact ⟨_, target, read⟩

/-- A program of the host, read in two pieces. -/
def sampleFiles : List HostFile :=
  [{ name := [0x5f, 0x72, 0x6d]
     cstring := by decide
     reads := some [⟨[0x7f, 0x45], by decide⟩, ⟨[0x4c], by decide⟩] }]

theorem fits_sampleFiles : Fits sampleFiles :=
  ⟨by decide, by decide, by decide⟩

theorem readsBack_sampleFiles :
    ∃ state, Runs (main sampleFiles) State.start () state ∧
      (∃ target, Runs (readFile 2 0 3) (boot state.image).fs (3, some [0x7f, 0x45, 0x4c]) target) ∧
      ∃ size target, Runs (readFile rootino 32 16) (boot state.image).fs
        (size, some (Dirent.toBytes ⟨2, nameField [0x72, 0x6d]⟩)) target := by
  obtain ⟨state, ran, back⟩ := readsBack (by decide) (by decide) fits_sampleFiles
  obtain ⟨contents, entry⟩ := back 0 (by decide)
  exact ⟨state, ran, contents 0 3 (by decide) (by decide), entry⟩

/-! ## Running on the image -/

/-- The kernel finds the blocks of a consistent image in order. -/
theorem Built.whole_image (built : Built state root files) (consistent : Consistent state.finish) :
    state.finish.image.volume.Whole state.finish.image.sb := by
  obtain ⟨size, blocks, inodes, -, map⟩ := field_eq built.super_finish
  have sb : state.finish.image.sb = diskSb := by
    simp only [State.image, size, blocks, inodes, diskSb]
  have volume : state.finish.image.volume =
      { state.finish.volume with bitmap := state.finish.image.bitmap } := by
    rw [Image.volume, image_inodes built.super_finish, image_data built.super_finish]
  have marks (block : Blockno) (bound : block.toNat < fssize) :
      state.finish.image.bitmap block = decide (block.toNat < state.freeblock) := by
    have small : block.toNat < bsize * 8 := bound.trans (by decide)
    simp only [State.image, map, Nat.div_eq_of_lt small, Nat.mod_eq_of_lt small, Nat.zero_add,
      Built.sectors_finish, bitOf_usedBits _ small]
  rw [sb, volume, built.volume_finish]
  refine ⟨⟨?_, fun block low => ?_, by decide⟩, fun inum contents bn bound => ?_⟩
  · exact built.stable.sound.congr (Volume.held_resize _ _ _) fun block inside =>
      marks block inside.2
  · exact (marks block (low.trans (by decide))).trans
      (decide_eq_true (low.trans_le built.stable.low))
  · by_cases live : 1 ≤ inum ∧ inum < state.freeinode
    · have mapped := consistent.mapped inum live.1 live.2 bn
      rw [built.volume_finish] at mapped
      exact (mapped bound).1
    · rw [built.freeinode] at live
      have ne : inum ≠ rootino := fun same => live (by rw [same, rootino]; omega)
      simp [FileSystem.Dinode.HasContents, Volume.node_resize_of_ne _ ne,
        built.free inum (by omega)] at contents

/-- A kernel on a consistent image keeps its blocks in order, whatever system calls are made. -/
theorem whole_of_mkfs {hostFiles : List HostFile} {kernel : FileSystem.Kernel}
    (ran : Runs (main hostFiles) State.start () state) (consistent : Consistent state)
    (reach : Transition.Reachable FileSystem.step (boot state.image) kernel) :
    FileSystem.Whole kernel.fs := by
  have count := freeinode_of_main ran
  have few := (consistent.inodes (hostFiles.length + 1) (by omega) (by omega)).1
  have : ninodes < capacity := by decide
  obtain ⟨middle, built, rfl⟩ := (main_spec hostFiles (by omega)).2 () state ran
  exact FileSystem.whole_of_reachable (built.whole_image consistent) reach

/-- The first process opens the root directory and forks; the child enters the root directory
and exits. -/
def openForkExit : List FileSystem.Event :=
  [⟨0, .openFile (some [0x2f]) 0⟩, ⟨0, .fork true⟩, ⟨1, .chdir (some [0x2f])⟩, ⟨1, .exit⟩]

theorem exists_run_openForkExit {image : Image} (isDir : (image.inodes rootino).type = .dir) :
    ∃ kernel, Transition.run FileSystem.step (boot image) openForkExit = some kernel := by
  -- the calls look at nothing of the image but the type of the root directory
  obtain ⟨sb, inodes, bitmap, data⟩ := image
  have root : inodes = Function.update inodes rootino { inodes rootino with type := .dir } := by
    rw [← isDir, Function.update_eq_self]
  rw [root]
  exact ⟨_, rfl⟩

theorem whole_of_mkfs_openForkExit :
    ∃ state kernel, Runs (main sampleFiles) State.start () state ∧
      Transition.run FileSystem.step (boot state.image) openForkExit = some kernel ∧
      FileSystem.Whole kernel.fs := by
  have readable : ∀ file ∈ sampleFiles, file.Readable := by
    unfold HostFile.Readable
    decide
  obtain ⟨middle, built, ran⟩ := exists_runs_main (by decide) readable fits_sampleFiles.not_overfull
  have isDir : (middle.finish.image.inodes rootino).type = .dir := by
    rw [image_inodes built.super_finish, built.volume_finish, Volume.node_resize]
    exact built.rootAt.type_eq
  obtain ⟨kernel, execution⟩ := exists_run_openForkExit isDir
  exact ⟨_, kernel, ran, execution,
    whole_of_mkfs ran ((consistent_iff ran).mpr (by decide)) (.of_run execution)⟩

end Xv6.Mkfs
