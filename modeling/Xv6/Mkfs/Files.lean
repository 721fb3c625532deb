import Xv6.Mkfs.Append

/-!
# The files of an image

What `mkfs` has put into the image after each of its steps: the root directory and the
files so far, with the blocks they need and no others.
-/

namespace Xv6.Mkfs

open Xv6.FileSystem (Dinode Dirent FileType BlockPlace Volume maxfile padName rootino)
open Xv6.Log (Blockno)
open Function Prog List State Nat RawDinode

/-! ## One file -/

/-- The inode is a file with these contents, in exactly the blocks it needs. -/
structure FileAt (volume : Volume) (inum : Nat) (type : FileType) (bytes : List Byte) : Prop where
  type_eq : (volume.nodes inum).type = type
  nlink : (volume.nodes inum).nlink = 1
  contents : volume.contents inum = bytes
  exact : Exact volume inum bytes.length
  small : bytes.length ≤ maxfile * bsize

namespace FileAt

variable {volume target : Volume} {inum other : Nat} {type : FileType} {bytes : List Byte}

section

variable (file : FileAt volume inum type bytes)

include file

theorem size_eq : (volume.nodes inum).size = bytes.length := by
  rw [← Volume.length_contents, file.contents]

theorem blockOf {pos : Nat} (bound : pos < bytes.length) : volume.blockOf inum (pos / bsize) ≠ 0 :=
  file.exact.mapped file.small bound

theorem byteOf {pos : Nat} (bound : pos < bytes.length) : volume.byteOf inum pos = bytes[pos] := by
  have contents := file.contents
  subst contents
  exact (Volume.getElem_contents volume inum bound).symm

theorem mapped : volume.Mapped inum := by
  intro bn bound
  rw [file.size_eq] at bound
  have used := file.blockOf bound
  rwa [Nat.mul_div_cancel _ (by decide)] at used

end

/-- A file keeps its contents when its inode and its blocks are left alone. -/
theorem frame (file : FileAt volume other type bytes)
    (node : target.nodes other = volume.nodes other)
    (held : ∀ place, target.held (other, place) = volume.held (other, place))
    (data : ∀ place, volume.held (other, place) ≠ 0 →
      target.data (volume.held (other, place)) = volume.data (volume.held (other, place))) :
    FileAt target other type bytes where
  type_eq := by
    rw [node]
    exact file.type_eq
  nlink := by
    rw [node]
    exact file.nlink
  contents := by
    have blockOf_eq bn : target.blockOf other bn = volume.blockOf other bn := by
      simp only [Volume.blockOf, held]
    rw [← file.contents, Volume.contents, node]
    refine map_congr_left fun pos bound => ?_
    rw [mem_range, file.size_eq] at bound
    have used := file.blockOf bound
    obtain ⟨place, -, -, block_eq⟩ := Volume.exists_place_of_blockOf used
    rw [Volume.byteOf, Volume.byteOf, blockOf_eq, block_eq, data place (block_eq ▸ used)]
  exact := by
    intro place
    rw [held]
    exact file.exact place
  small := file.small

/-- Bytes were written at the end of the file. -/
theorem extend {p : List Byte} {size : Nat} (file : FileAt volume inum type bytes)
    (written : Volume.Written inum bytes.length p volume target)
    (exact : Exact target inum (bytes.length + p.length))
    (small : bytes.length + p.length ≤ maxfile * bsize) (size_eq : size = bytes.length + p.length) :
    FileAt (target.resize inum size) inum type (bytes ++ p) where
  type_eq := by
    obtain ⟨addrs, node⟩ := written.node
    rw [Volume.node_resize, node]
    exact file.type_eq
  nlink := by
    obtain ⟨addrs, node⟩ := written.node
    rw [Volume.node_resize, node]
    exact file.nlink
  contents := by
    have max_eq : size = max (volume.nodes inum).size (bytes.length + p.length) := by
      rw [file.size_eq]
      omega
    rw [written.contents file.mapped (le_of_eq file.size_eq.symm) max_eq, file.contents]
    rw [take_length, drop_eq_nil_of_le (by omega), append_nil]
  exact := by
    intro place
    rw [Volume.held_resize, length_append]
    exact exact place
  small := by
    rw [length_append]
    exact small

end FileAt

/-! ## `iappend` -/

/-- The image has its full length, the blocks from `freeblock` on hold zeros, and the volume
is sound. -/
structure Stable (state : State) : Prop where
  length : state.length = fssize
  low : nmeta ≤ state.freeblock
  high : state.freeblock ≤ fssize
  fresh : ∀ sec, state.freeblock ≤ sec → sec < fssize → state.sectors sec = fun _ => 0
  sound : Volume.Sound diskSb state.volume

variable {state target : State} {inum : Nat} {type : FileType} {bytes p : List Byte}

theorem Stable.steady (stable : Stable state) (bound : inum < capacity)
    (live : (state.volume.nodes inum).type ≠ .free) : Steady state inum (state.dinode inum) where
  length := stable.length
  low := stable.low
  high := stable.high
  fresh := stable.fresh
  sound := by
    rw [edited_dinode bound]
    exact stable.sound
  live := by
    rwa [node_of_lt bound] at live

theorem runs_rinode (length : state.length = fssize) (bound : inum < capacity) :
    Runs (rinode inum) state (state.dinode inum) state := by
  have inside : iblock inum < fssize :=
    lt_trans (iblock_of_lt bound).2 (lt_trans bmapstart_lt nmeta_lt)
  unfold rinode
  rw [runs_bind]
  exact ⟨_, state, runs_rsect length inside, runs_pure.mpr ⟨rfl, rfl⟩⟩

/-- The inode is stored. -/
def State.store (state : State) (inum : Nat) (din : RawDinode) : State :=
  state.write (iblock inum) (setDinodeIn (state.sectors (iblock inum)) inum din)

theorem runs_winode (din : RawDinode) (length : state.length = fssize) (bound : inum < capacity) :
    Runs (winode inum din) state () (state.store inum din) := by
  have inside : iblock inum < fssize :=
    lt_trans (iblock_of_lt bound).2 (lt_trans bmapstart_lt nmeta_lt)
  unfold winode
  rw [runs_bind]
  exact ⟨_, state, runs_rsect length inside, runs_wsect _ length inside⟩

/-- Storing an inode leaves the sectors outside the inode blocks alone. -/
theorem State.sectors_store {sec : Nat} (din : RawDinode) (bound : inum < capacity)
    (outside : sec < inodestart ∨ bmapstart ≤ sec) :
    (state.store inum din).sectors sec = state.sectors sec := by
  have inside := iblock_of_lt bound
  exact update_of_ne (by omega) ..

/-- Bytes were appended to one file. -/
structure Grew (inum : Nat) (type : FileType) (bytes p : List Byte) (state target : State) :
    Prop where
  stable : Stable target
  file : FileAt target.volume inum type (bytes ++ p)
  others : ∀ other ≠ inum, ∀ type bytes, FileAt state.volume other type bytes →
    FileAt target.volume other type bytes
  nodes : ∀ other ≠ inum, target.volume.nodes other = state.volume.nodes other
  freeblock : target.freeblock + demand bytes.length =
    state.freeblock + demand (bytes.length + p.length)
  freeinode : target.freeinode = state.freeinode
  kept : ∀ sec < inodestart, target.sectors sec = state.sectors sec

theorem State.edited_size {size : Nat} (din : RawDinode) (bound : size < 2 ^ 32) :
    state.edited inum { din with size := BitVec.ofNat 32 size } =
      (state.edited inum din).resize inum size := by
  have toNat_eq : (BitVec.ofNat 32 size).toNat = size := by
    rw [BitVec.toNat_ofNat, mod_eq_of_lt bound]
  simp only [edited, Volume.resize, update_self, update_idem, toDinode, toNat_eq]

/-- The edited inode is stored with its new size. -/
theorem Appended.grew {din : RawDinode} (bound : inum < capacity)
    (file : FileAt state.volume inum type bytes)
    (appended : Appended inum bytes.length p state (state.dinode inum) target din) :
    Grew inum type bytes p state (target.store inum
      { din with size := BitVec.ofNat 32 (bytes.length + p.length) }) := by
  have steady := appended.steady
  have small := appended.small
  have written := appended.written
  rw [edited_dinode bound] at written
  have volume_eq : (target.store inum
      { din with size := BitVec.ofNat 32 (bytes.length + p.length) }).volume =
        (target.edited inum din).resize inum (bytes.length + p.length) := by
    rw [← edited_size din]
    · exact volume_write_dinode bound _
    · exact lt_of_le_of_lt small (by decide)
  refine ⟨⟨steady.length, steady.low, steady.high, fun sec above below => ?_, ?_⟩, ?_,
    fun other ne type bytes file => ?_, fun other ne => ?_, appended.freeblock, appended.freeinode,
    fun sec below => ?_⟩
  · rw [sectors_store _ bound (.inr ?_)]
    · exact steady.fresh sec above below
    · have := bmapstart_lt
      have := steady.low
      have : target.freeblock ≤ sec := above
      omega
  · rw [volume_eq]
    exact steady.sound.resize ..
  · rw [volume_eq]
    exact file.extend written appended.exact small rfl
  · rw [volume_eq]
    refine file.frame ?_ (fun place => ?_) fun place used => ?_
    · rw [Volume.node_resize_of_ne _ ne]
      exact written.nodes other ne
    · rw [Volume.held_resize]
      exact written.others (other, place) ne
    · exact written.data (other, place) ne used
  · rw [volume_eq, Volume.node_resize_of_ne _ ne]
    exact written.nodes other ne
  · rw [sectors_store _ bound (.inl below)]
    refine appended.kept sec ?_
    have : inodestart < nmeta := by decide
    omega

theorem ensures_iappend (bound : inum < capacity) (stable : Stable state)
    (file : FileAt state.volume inum type bytes) (live : type ≠ .free) (p : List Byte) :
    Ensures (fun _ => TooMuch state bytes.length p.length) (iappend inum p) state fun _ target =>
      Grew inum type bytes p state target := by
  have steady := stable.steady bound (by rwa [file.type_eq])
  have volume_eq : state.edited inum (state.dinode inum) = state.volume := edited_dinode bound
  have size_eq : (state.dinode inum).size.toNat = bytes.length := by
    rw [← file.size_eq, node_of_lt bound]
    rfl
  unfold iappend
  rw [ensures_bind, ensures_iff_of_runs (runs_rinode stable.length bound), ensures_bind, size_eq]
  refine (ensures_appendBlocks (le_refl _) steady (volume_eq ▸ file.exact) file.small).mono ?_
  rintro ⟨din, off⟩ middle - ⟨appended, off_eq⟩
  dsimp only at appended off_eq ⊢
  rw [off_eq, ensures_iff_of_runs (runs_winode _ appended.steady.length bound)]
  exact appended.grew bound file

/-! ## `ialloc` -/

/-- The inode that `ialloc` stores. -/
def RawDinode.fresh (type : BitVec 16) : RawDinode :=
  ⟨type, 0, 0, 1, 0, fun _ => 0⟩

/-- A free inode was made a file without contents. -/
structure Created (inum : Nat) (type : FileType) (state target : State) : Prop where
  stable : Stable target
  file : FileAt target.volume inum type []
  others : ∀ other ≠ inum, ∀ type bytes, FileAt state.volume other type bytes →
    FileAt target.volume other type bytes
  nodes : ∀ other ≠ inum, target.volume.nodes other = state.volume.nodes other
  freeblock : target.freeblock = state.freeblock
  freeinode : target.freeinode = state.freeinode + 1
  kept : ∀ sec < inodestart, target.sectors sec = state.sectors sec

/-- No place is needed for an empty file. -/
theorem not_needed_zero (place : BlockPlace) : ¬Needed 0 place := by
  cases place with
  | addr index => exact not_lt_zero _
  | entry index => exact not_lt_zero _

theorem runs_ialloc {number : BitVec 16} (stable : Stable state)
    (bound : state.freeinode < capacity)
    (free : (state.volume.nodes state.freeinode).type = .free)
    (type_eq : fileType number = type) :
    ∃ target, Runs (ialloc number) state state.freeinode target ∧
      Created state.freeinode type state target := by
  let counted : State := { state with freeinode := state.freeinode + 1 }
  let target := counted.store state.freeinode (.fresh number)
  have ran : Runs (ialloc number) state state.freeinode target := by
    unfold ialloc
    simp only [runs_bind, runs_reading, runs_update, runs_pure]
    exact ⟨_, _, ⟨rfl, rfl⟩, (), counted, rfl, (), target, runs_winode _ stable.length bound,
      rfl, rfl⟩
  have volume_eq : target.volume = state.edited state.freeinode (.fresh number) :=
    volume_write_dinode bound _
  have nodes other (ne : other ≠ state.freeinode) :
      target.volume.nodes other = state.volume.nodes other := by
    rw [volume_eq]
    exact update_of_ne ne ..
  have data : target.volume.data = state.volume.data := by
    rw [volume_eq]
    rfl
  have node : target.volume.nodes state.freeinode = (fresh number).toDinode := by
    rw [volume_eq, node_edited]
  have empty place : target.volume.held (state.freeinode, place) = 0 := by
    cases place <;> simp [Volume.held, FileSystem.numberAt, node, fresh, toDinode]
  have othersHeld other (ne : other ≠ state.freeinode) : ∀ place, target.volume.held
      (other, place) = state.volume.held (other, place) :=
    Volume.held_congr (nodes other ne) fun _ => by rw [data]
  have held : ∀ key, target.volume.held key = state.volume.held key := by
    rintro ⟨other, place⟩
    by_cases eq : other = state.freeinode
    · rw [eq, empty, Volume.held_of_free free]
    · exact othersHeld other eq place
  refine ⟨target, ran, ⟨⟨stable.length, stable.low, stable.high, fun sec above below => ?_, ?_⟩,
    ⟨?_, ?_, ?_, fun place => ?_, zero_le _⟩, fun other ne type bytes file => ?_, nodes, rfl,
    rfl, fun sec below => sectors_store _ bound (.inl below)⟩⟩
  · rw [← stable.fresh sec above below]
    refine sectors_store _ bound (.inr ?_)
    have := bmapstart_lt
    have := stable.low
    have : state.freeblock ≤ sec := above
    omega
  · refine Custody.Marking.congr stable.sound held fun block _ => ?_
    rfl
  · rw [node]
    exact type_eq
  · rw [node]
    rfl
  · rw [Volume.contents, node]
    rfl
  · rw [empty]
    exact ⟨fun absurd => (absurd rfl).elim, fun needed => (not_needed_zero place needed).elim⟩
  · exact file.frame (nodes other ne) (othersHeld other ne) fun place _ => by rw [data]

end Xv6.Mkfs
