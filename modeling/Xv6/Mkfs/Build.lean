import Mathlib.Algebra.Order.BigOperators.Group.List
import Xv6.Mkfs.Files

/-!
# Building the image

The invariant of `main`: the image holds the root directory and the files that have been
copied so far.  `mkfs` fails only on a file that it cannot open or whose name has a `/`,
or when the files do not fit into the image.
-/

namespace Xv6.Mkfs

open Xv6.FileSystem (Dinode Dirent FileType BlockPlace Volume dot dotdot maxfile padName rootino)
open Xv6.Log (Blockno)
open Prog List State HostFile RawDinode

/-! ## The invariant -/

/-- The number of blocks that the files take. -/
def blocksOf (files : List (List Byte)) : Nat :=
  (files.map fun bytes => demand bytes.length).sum

/-- The image holds the root directory and the files, with the inode numbers from 2 on. -/
structure Built (state : State) (root : List Byte) (files : List (List Byte)) : Prop where
  stable : Stable state
  rootAt : FileAt state.volume rootino .dir root
  fileAt : ∀ index (bound : index < files.length),
    FileAt state.volume (index + 2) .file files[index]
  free : ∀ inum, inum = 0 ∨ files.length + 2 ≤ inum → (state.volume.nodes inum).type = .free
  freeinode : state.freeinode = files.length + 2
  freeblock : state.freeblock = nmeta + demand root.length + blocksOf files
  super : state.sectors 1 = superblock

/-- The files need too many blocks, or one of them is too large. -/
def Overfull (root : List Byte) (files : List (List Byte)) : Prop :=
  fssize < nmeta + demand root.length + blocksOf files ∨ maxfile * bsize < root.length ∨
    ∃ bytes ∈ files, maxfile * bsize < bytes.length

variable {state target : State} {root p : List Byte} {files : List (List Byte)} {bytes : List Byte}

theorem blocksOf_append (files more : List (List Byte)) :
    blocksOf (files ++ more) = blocksOf files + blocksOf more := by
  rw [blocksOf, map_append, sum_append]
  rfl

theorem blocksOf_singleton (bytes : List Byte) : blocksOf [bytes] = demand bytes.length := by
  simp [blocksOf]

namespace Overfull

theorem root_append (overfull : Overfull root files) (p : List Byte) :
    Overfull (root ++ p) files := by
  have length_le : root.length ≤ (root ++ p).length := by
    rw [length_append]
    omega
  have := demand_mono length_le
  rcases overfull with blocks | large | large
  · exact .inl (by omega)
  · exact .inr (.inl (by omega))
  · exact .inr (.inr large)

theorem last_append (overfull : Overfull root (files ++ [bytes])) (p : List Byte) :
    Overfull root (files ++ [bytes ++ p]) := by
  have length_le : bytes.length ≤ (bytes ++ p).length := by
    rw [length_append]
    omega
  have := demand_mono length_le
  rcases overfull with blocks | large | ⟨other, member, large⟩
  · refine .inl ?_
    rw [blocksOf_append, blocksOf_singleton] at blocks ⊢
    omega
  · exact .inr (.inl large)
  · refine .inr (.inr ?_)
    rcases mem_append.mp member with member | last
    · exact ⟨other, mem_append_left _ member, large⟩
    · rw [mem_singleton] at last
      subst last
      exact ⟨_, mem_append_right _ (mem_singleton_self _), by omega⟩

theorem files_append (overfull : Overfull root files) (more : List (List Byte)) :
    Overfull root (files ++ more) := by
  rcases overfull with blocks | large | ⟨other, member, large⟩
  · refine .inl ?_
    rw [blocksOf_append]
    omega
  · exact .inr (.inl large)
  · exact .inr (.inr ⟨other, mem_append_left _ member, large⟩)

end Overfull

namespace Built

/-- A directory entry is appended to the root directory. -/
theorem ensures_root (built : Built state root files) (p : List Byte) :
    Ensures (fun _ => Overfull (root ++ p) files) (iappend rootino p) state fun _ target =>
      Built target (root ++ p) files := by
  have bound : rootino < capacity := by decide
  have spec := ensures_iappend bound built.stable built.rootAt (by decide) p
  refine (spec.allow fun _ tooMuch => ?_).mono fun _ target _ grew => ?_
  · have := built.freeblock
    rcases tooMuch with short | large
    · refine .inl ?_
      unfold Short at short
      rw [length_append]
      omega
    · exact .inr (.inl (by rw [length_append]; omega))
  · refine ⟨grew.stable, grew.file, fun index bound => ?_, fun inum free => ?_,
      grew.freeinode.trans built.freeinode, ?_, ?_⟩
    · exact grew.others _ (by unfold rootino; omega) _ _ (built.fileAt index bound)
    · rw [grew.nodes inum (by unfold rootino; omega)]
      exact built.free inum free
    · have := grew.freeblock
      have := built.freeblock
      rw [length_append]
      omega
    · rw [grew.kept 1 (by decide)]
      exact built.super

/-- A piece of a file is appended to the last file. -/
theorem ensures_last (built : Built state root (files ++ [bytes]))
    (room : files.length + 2 < capacity) (p : List Byte) :
    Ensures (fun _ => Overfull root (files ++ [bytes ++ p])) (iappend (files.length + 2) p) state
      fun _ target => Built target root (files ++ [bytes ++ p]) := by
  have file := built.fileAt files.length (by simp)
  rw [getElem_concat_length rfl] at file
  refine ((ensures_iappend room built.stable file (by decide) p).allow fun _ tooMuch => ?_).mono
    fun _ target _ grew => ?_
  · have := built.freeblock
    rw [blocksOf_append, blocksOf_singleton] at this
    rcases tooMuch with short | large
    · refine .inl ?_
      unfold Short at short
      rw [blocksOf_append, blocksOf_singleton, length_append]
      omega
    · refine .inr (.inr ⟨_, mem_append_right _ (mem_singleton_self _), ?_⟩)
      rw [length_append]
      omega
  · refine ⟨grew.stable, ?_, fun index bound => ?_, fun inum free => ?_,
      ?_, ?_, ?_⟩
    · exact grew.others _ (by unfold rootino; omega) _ _ built.rootAt
    · by_cases last : index = files.length
      · subst last
        rw [getElem_concat_length rfl]
        exact grew.file
      · have bound' : index < files.length := by
          simp only [length_append, length_singleton] at bound
          omega
        have other := built.fileAt index (by simp; omega)
        rw [getElem_append_left bound'] at other ⊢
        exact grew.others _ (by omega) _ _ other
    · have free' : inum = 0 ∨ (files ++ [bytes]).length + 2 ≤ inum := by
        simpa using free
      have elsewhere : inum = 0 ∨ files.length + 3 ≤ inum := by simpa using free
      rw [grew.nodes inum (by omega)]
      exact built.free inum free'
    · rw [grew.freeinode, built.freeinode]
      simp
    · have after := grew.freeblock
      have before := built.freeblock
      rw [blocksOf_append, blocksOf_singleton] at before ⊢
      rw [length_append]
      omega
    · rw [grew.kept 1 (by decide)]
      exact built.super

/-- An inode is allocated for the next file. -/
theorem runs_ialloc (built : Built state root files) (room : files.length + 2 < capacity) :
    ∃ target, Runs (ialloc tFile) state (files.length + 2) target ∧
      Built target root (files ++ [[]]) := by
  have freeinode := built.freeinode
  obtain ⟨target, ran, created⟩ : ∃ target,
      Runs (ialloc tFile) state state.freeinode target ∧
        Created state.freeinode .file state target :=
    Mkfs.runs_ialloc built.stable (by omega) (built.free _ (.inr (by omega))) rfl
  rw [freeinode] at ran created
  refine ⟨target, ran, created.stable, ?_, fun index bound => ?_, fun inum free => ?_, ?_, ?_, ?_⟩
  · exact created.others _ (by unfold rootino; omega) _ _ built.rootAt
  · by_cases last : index = files.length
    · subst last
      rw [getElem_concat_length rfl]
      exact created.file
    · have bound' : index < files.length := by
        simp only [length_append, length_singleton] at bound
        omega
      rw [getElem_append_left bound']
      exact created.others _ (by omega) _ _ (built.fileAt index bound')
  · simp only [length_append, length_singleton] at free
    rw [created.nodes inum (by omega)]
    exact built.free inum (by omega)
  · rw [created.freeinode, freeinode, length_append, length_singleton]
  · rw [created.freeblock, built.freeblock, blocksOf_append]
    rfl
  · rw [created.kept 1 (by decide)]
    exact built.super

end Built

/-! ## Adding files -/

/-- The contents of a file of the host. -/
def HostFile.contents (file : HostFile) : List Byte :=
  ((file.reads.getD []).map Subtype.val).flatten

/-- `mkfs` accepts the name of the file and can open it. -/
def HostFile.Readable (file : HostFile) : Prop :=
  0x2f ∉ file.name ∧ file.reads.isSome

/-- The entry of a file in the root directory. -/
def entryOf (inum : Nat) (file : HostFile) : List Byte :=
  Dirent.toBytes ⟨inum, padName (strip file.name)⟩

/-- The entries of files with consecutive inode numbers. -/
def entries : Nat → List HostFile → List Byte
  | _, [] => []
  | inum, file :: rest => entryOf inum file ++ entries (inum + 1) rest

theorem Built.ensures_appendPieces (pieces : List Piece)
    (built : Built state root (files ++ [bytes]))
    (room : files.length + 2 < capacity) :
    Ensures (fun _ => Overfull root (files ++ [bytes ++ (pieces.map Subtype.val).flatten]))
      (appendPieces (files.length + 2) pieces) state fun _ target =>
        Built target root (files ++ [bytes ++ (pieces.map Subtype.val).flatten]) := by
  induction pieces generalizing state bytes with
  | nil =>
    simp only [map_nil, flatten_nil, append_nil]
    exact built
  | cons piece rest ih =>
    simp only [map_cons, flatten_cons]
    rw [appendPieces, ensures_bind, ← append_assoc]
    refine ((built.ensures_last room piece.val).allow fun _ overfull => ?_).mono
      fun _ target _ grown => ih grown
    exact overfull.last_append _

theorem Built.ensures_addFile (built : Built state root files) (file : HostFile)
    (room : files.length + 2 < capacity) :
    Ensures (fun _ => ¬file.Readable ∨
        Overfull (root ++ entryOf (files.length + 2) file) (files ++ [file.contents]))
      (addFile file) state fun _ target =>
        Built target (root ++ entryOf (files.length + 2) file) (files ++ [file.contents]) := by
  unfold addFile
  rw [ensures_bind, ensures_ensure]
  split
  · cases reads_eq : file.reads with
    | none =>
      rw [ensures_stop]
      exact .inl fun readable => by simp [Readable, reads_eq] at readable
    | some pieces =>
      have bytes_eq : file.contents = [] ++ (pieces.map Subtype.val).flatten := by
        simp [contents, reads_eq]
      obtain ⟨middle, ran, allocated⟩ := built.runs_ialloc room
      rw [ensures_bind, ensures_iff_of_runs ran, ensures_bind, bytes_eq]
      refine
        ((allocated.ensures_root _).allow fun _ overfull => ?_).mono fun _ target _ entered => ?_
      · exact .inr (overfull.last_append _)
      · exact (entered.ensures_appendPieces pieces room).allow fun _ overfull => .inr overfull
  · exact .inl fun readable => absurd readable.1 ‹_›

theorem Built.ensures_addFiles (hostFiles : List HostFile) (built : Built state root files)
    (room : files.length + 2 + hostFiles.length ≤ capacity) :
    Ensures (fun _ => (∃ file ∈ hostFiles, ¬file.Readable) ∨
        Overfull (root ++ entries (files.length + 2) hostFiles) (files ++ hostFiles.map contents))
      (addFiles hostFiles) state fun _ target =>
        Built target (root ++ entries (files.length + 2) hostFiles)
          (files ++ hostFiles.map contents) := by
  induction hostFiles generalizing state root files with
  | nil =>
    simp only [entries, map_nil, append_nil]
    exact built
  | cons file rest ih =>
    rw [length_cons] at room
    rw [addFiles, ensures_bind]
    have whole : root ++ entries (files.length + 2) (file :: rest) =
        root ++ entryOf (files.length + 2) file ++ entries ((files ++ [file.contents]).length + 2)
          rest := by
      rw [entries, append_assoc, length_append, length_singleton]
    have contents : files ++ (file :: rest).map contents =
        files ++ [file.contents] ++ rest.map contents := by
      simp
    rw [whole, contents]
    refine ((built.ensures_addFile file (by omega)).allow fun _ reason => ?_).mono
      fun _ target _ added => ?_
    · rcases reason with unreadable | overfull
      · exact .inl ⟨file, mem_cons_self, unreadable⟩
      · exact .inr ((overfull.root_append _).files_append _)
    · refine (ih added (by simp; omega)).allow fun _ reason => ?_
      exact reason.imp_left fun ⟨other, member, unreadable⟩ =>
        ⟨other, mem_cons_of_mem _ member, unreadable⟩

/-! ## The empty image -/

/-- The image has been filled with zeros up to a sector. -/
def State.zeroed (count : Nat) : State :=
  { State.start with length := count }

theorem runs_zeroSectors {count : Nat} (bound : count ≤ fssize) :
    Runs (zeroSectors count) start () (.zeroed count) := by
  induction count with
  | zero => exact runs_pure.mpr ⟨rfl, rfl⟩
  | succ count ih =>
    rw [zeroSectors, runs_bind]
    refine ⟨(), _, ih (by omega), ?_⟩
    unfold wsect
    rw [runs_update, position_of_lt (by omega)]
    have length_eq : max (zeroed count).length (count + 1) = count + 1 :=
      Nat.max_eq_right (Nat.le_succ count)
    have sectors_eq : Function.update (zeroed count).sectors count (fun _ => 0) =
        (zeroed count).sectors :=
      Function.update_eq_self ..
    rw [length_eq, sectors_eq]
    rfl

/-- The image before the first inode is allocated. -/
def State.formatted : State :=
  (State.zeroed fssize).write 1 superblock

theorem sectors_formatted {sec : Nat} (ne : sec ≠ 1) :
    formatted.sectors sec = fun _ => 0 :=
  Function.update_of_ne ne ..

/-- A block of zeros holds free inodes. -/
theorem type_dinodeIn_zero (inum : Nat) :
    (dinodeIn (fun _ => 0) inum).toDinode.type = .free := by
  have word :
      (Block.getWords (fun _ => 0) (dinodeWords * (inum % ipb)) dinodeWords).getD 0 0 = 0 := by
    rw [show dinodeWords = 15 + 1 from rfl, Block.getWords, getD_cons_zero, Block.word_zero]
  simp only [dinodeIn, ofWords, word]
  rfl

theorem free_formatted (inum : Nat) : (formatted.volume.nodes inum).type = .free := by
  simp only [volume]
  split
  · rename_i bound
    have inside := iblock_of_lt bound
    have ne : iblock inum ≠ 1 := by
      have : 1 < inodestart := by decide
      omega
    rw [dinode, sectors_formatted ne, type_dinodeIn_zero]
  · rfl

theorem stable_formatted : Stable formatted where
  length := rfl
  low := Nat.le_refl _
  high := Nat.le_of_lt nmeta_lt
  fresh := by
    intro sec above _
    refine sectors_formatted ?_
    have : 1 < nmeta := by decide
    have : nmeta ≤ sec := above
    omega
  sound := by
    refine ⟨fun inside => ?_, fun key used => ?_, fun key other used => ?_, fun block inside => ?_⟩
    · exact Nat.not_succ_le_zero _ (dataBlock_iff.mp inside).1
    · exact (used (Volume.held_of_free (free_formatted key.1) key.2)).elim
    · exact (used (Volume.held_of_free (free_formatted key.1) key.2)).elim
    · rw [dataBlock_iff] at inside
      constructor
      · intro marked
        have : block.toNat < nmeta := of_decide_eq_true marked
        omega
      · rintro ⟨key, rfl⟩
        rw [Volume.held_of_free (free_formatted key.1) key.2] at inside
        exact (Nat.not_succ_le_zero _ inside.1).elim

/-- The root directory of the image without files. -/
def bareRoot : List Byte :=
  Dirent.toBytes ⟨rootino, padName dot⟩ ++ Dirent.toBytes ⟨rootino, padName dotdot⟩

theorem ensures_makeRoot :
    Ensures (fun _ => Overfull bareRoot []) makeRoot formatted fun _ target =>
      Built target bareRoot [] := by
  obtain ⟨middle, ran, created⟩ : ∃ target,
      Runs (ialloc tDir) formatted formatted.freeinode target ∧
        Created formatted.freeinode .dir formatted target :=
    runs_ialloc stable_formatted (by decide) (free_formatted _) rfl
  have built : Built middle [] [] := by
    refine ⟨created.stable, created.file, fun index bound => absurd bound (Nat.not_lt_zero _),
      fun inum free => ?_, created.freeinode, created.freeblock, ?_⟩
    · rw [created.nodes inum]
      · exact free_formatted inum
      · rintro rfl
        rcases free with absurd | absurd
        · cases absurd
        · exact (Nat.not_succ_le_self 1 absurd).elim
    · rw [created.kept 1 (by decide)]
      simp [formatted, write]
  have root_eq : formatted.freeinode = rootino := rfl
  unfold makeRoot
  rw [ensures_bind, ensures_iff_of_runs ran, ensures_bind, ensures_ensure,
    if_pos root_eq, ensures_bind]
  refine ((built.ensures_root _).allow fun _ overfull => ?_).mono fun _ _ _ first => ?_
  · exact overfull.root_append _
  · exact first.ensures_root _

/-! ## The whole program -/

/-- The root directory of the image. -/
def rootBytes (hostFiles : List HostFile) : List Byte :=
  bareRoot ++ entries 2 hostFiles

/-- The size of the root directory that `fixRoot` stores. -/
def roundUp (size : Nat) : Nat :=
  (size / bsize + 1) * bsize

/-- The size of the root directory is rounded up. -/
def State.fixed (state : State) : State :=
  state.store rootino { state.dinode rootino with
    size := BitVec.ofNat 32 (roundUp (state.dinode rootino).size.toNat) }

/-- The free map is written. -/
def State.finish (state : State) : State :=
  state.fixed.write bmapstart (usedBits state.freeblock)

theorem runs_fixRoot (length : state.length = fssize) : Runs fixRoot state () state.fixed := by
  have inside : rootino < capacity := by decide
  unfold fixRoot
  rw [runs_bind]
  exact ⟨_, _, runs_rinode length inside, runs_winode _ length inside⟩

theorem runs_balloc {used : Nat} (length : state.length = fssize) (bound : used < bsize * 8) :
    Runs (balloc used) state () (state.write bmapstart (usedBits used)) := by
  unfold balloc
  rw [runs_bind]
  exact ⟨(), state, runs_ensure.mpr ⟨bound, rfl⟩, runs_wsect _ length (by decide)⟩

/-- `mkfs` fails only for a reason that lies in the files, and what it builds holds the files. -/
theorem main_spec (hostFiles : List HostFile) (room : hostFiles.length + 2 ≤ capacity) :
    (∀ reason, Fails (main hostFiles) start reason →
      (∃ file ∈ hostFiles, ¬file.Readable) ∨
        Overfull (rootBytes hostFiles) (hostFiles.map contents)) ∧
    ∀ value target, Runs (main hostFiles) start value target → ∃ middle,
      Built middle (rootBytes hostFiles) (hostFiles.map contents) ∧ target = middle.finish := by
  refine ensures_iff.mp ?_
  unfold main
  rw [ensures_bind, ensures_iff_of_runs (runs_zeroSectors (Nat.le_refl _)), ensures_bind,
    ensures_iff_of_runs (runs_wsect _ rfl (by decide)), ensures_bind]
  refine (ensures_makeRoot.allow fun _ overfull => ?_).mono fun _ bare _ builtBare => ?_
  · exact .inr ((overfull.root_append _).files_append _)
  · rw [ensures_bind]
    refine (builtBare.ensures_addFiles hostFiles (by simp; omega)).mono fun _ middle _ built => ?_
    have length := built.stable.length
    have fixedLength : middle.fixed.length = fssize := length
    have used : middle.fixed.freeblock < bsize * 8 :=
      Nat.lt_of_le_of_lt built.stable.high (by decide)
    rw [ensures_bind, ensures_iff_of_runs (runs_fixRoot length), ensures_bind,
      ensures_reading, ensures_iff_of_runs (runs_balloc fixedLength used)]
    exact ⟨middle, built, rfl⟩

/-- `mkfs` finishes on files that it can read and that fit. -/
theorem exists_runs_main {hostFiles : List HostFile} (room : hostFiles.length + 2 ≤ capacity)
    (readable : ∀ file ∈ hostFiles, file.Readable)
    (fits : ¬Overfull (rootBytes hostFiles) (hostFiles.map contents)) :
    ∃ middle, Built middle (rootBytes hostFiles) (hostFiles.map contents) ∧
      Runs (main hostFiles) start () middle.finish := by
  have spec := main_spec hostFiles room
  rcases runs_or_fails (main hostFiles) start with ⟨_, target, ran⟩ | ⟨reason, failed⟩
  · obtain ⟨middle, built, rfl⟩ := spec.2 _ _ ran
    exact ⟨middle, built, ran⟩
  · rcases spec.1 reason failed with ⟨file, member, unreadable⟩ | overfull
    · exact (unreadable (readable file member)).elim
    · exact (fits overfull).elim

end Xv6.Mkfs
