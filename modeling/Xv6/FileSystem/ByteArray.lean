import Mathlib.Data.List.Range
import Xv6.FileSystem.Calls
import Xv6.FileSystem.Growth

/-!
# Files as byte arrays

A file whose blocks below its size are all there behaves as an array of bytes: `writei`
replaces bytes and may append some, and `readi` returns bytes.  A write that allocates
also grows the size, so the disk gets the new addresses together with the new size.
-/

namespace Xv6.FileSystem

open Xv6.Log (Blockno)
open Prog Volume List Fs Nat

variable {fs middle target : Fs} {ip : Islot} {places : List BlockPlace} {off n : Nat}
  {src : List Byte}

/-- `writei` refuses: the offset is beyond the end of the file, the end wraps, or it is
beyond the largest size. -/
def Refused (size off n : Nat) : Prop :=
  size < off ∨ Overflows off n ∨ maxfile * bsize < off + n

instance (size off n : Nat) : Decidable (Refused size off n) :=
  inferInstanceAs (Decidable (_ ∨ _))

/-- Below the largest size nothing wraps, so only a write beyond it is refused. -/
theorem refused_iff {size off n : Nat} (inside : off ≤ size) :
    Refused size off n ↔ maxfile * bsize < off + n := by
  have maxfile_eq : maxfile * bsize = 71680 := rfl
  unfold Refused Overflows
  omega

/-- The end of `writei`: a file that has grown gets its size, also on the disk. -/
def Fs.finishWrite (fs : Fs) (ip : Islot) (off : Nat) (src : List Byte) : Fs :=
  if 0 < src.length ∧ (fs.icache ip).size < off + src.length then
    (fs.setInode ip fun inode => { inode with size := off + src.length }).setDinode
      (fs.icache ip).inum { (fs.icache ip).toDinode with size := off + src.length }
  else
    fs

/-- What `writei` does to a file or directory. -/
theorem ensures_writei (laid : Laid fs.sb (fs.edited ip)) (live : (fs.icache ip).type ≠ .free)
    (notDev : (fs.icache ip).type ≠ .dev) (nodup : places.Nodup)
    (covers : ∀ pos, off ≤ pos → pos < off + src.length → Covers places (pos / bsize)) :
    Ensures (fun reason => ¬Refused (fs.icache ip).size off src.length ∧
        OutOfBlocks places ip fs reason) (writei ip off src) fs fun written target =>
      if Refused (fs.icache ip).size off src.length then written = none ∧ target = fs
      else written = some src.length ∧ ∃ middle, Extends places ip fs middle ∧
        Written (fs.icache ip).inum off src (fs.edited ip) (middle.edited ip) ∧
        target = middle.finishWrite ip off src := by
  unfold writei
  rw [ensures_bind, ensures_reading, if_neg notDev]
  by_cases outside : (fs.icache ip).size < off ∨ Overflows off src.length
  · have refused : Refused (fs.icache ip).size off src.length := by
      rcases outside with beyond | wraps
      · exact .inl beyond
      · exact .inr (.inl wraps)
    rw [if_pos outside, ensures_pure, if_pos refused]
    exact ⟨rfl, rfl⟩
  rw [if_neg outside]
  by_cases large : maxfile * bsize < off + src.length
  · have refused : Refused (fs.icache ip).size off src.length := .inr (.inr large)
    rw [if_pos large, ensures_pure, if_pos refused]
    exact ⟨rfl, rfl⟩
  have accepted : ¬Refused (fs.icache ip).size off src.length := by
    rintro (beyond | wraps | large')
    · exact outside (.inl beyond)
    · exact outside (.inr wraps)
    · exact large large'
  rw [if_neg large, ensures_bind]
  simp only [if_neg accepted]
  refine (ensures_writeBlocks (le_refl _) laid live nodup (not_lt.mp large)
    covers).allow (fun _ out => ⟨accepted, out⟩) |>.mono ?_
  rintro _ middle - ⟨grows, written⟩
  rw [ensures_bind, ensures_reading, ensures_bind, ensures_whenever]
  unfold finishWrite
  by_cases larger : 0 < src.length ∧ (middle.icache ip).size < off + src.length
  · rw [if_pos larger, ensures_bind, ensures_update, iupdate, ensures_update,
      ensures_pure]
    refine ⟨rfl, middle, grows, written, ?_⟩
    rw [if_pos larger]
    simp
  · rw [if_neg larger, ensures_pure]
    exact ⟨rfl, middle, grows, written, by rw [if_neg larger]⟩

/-! ## The blocks of a write -/

/-- The blocks of a file that some bytes from an offset on lie in. -/
def blocksFor (off n : Nat) : List Nat :=
  if n = 0 then []
  else List.range' (off / bsize) ((off + n - 1) / bsize + 1 - off / bsize)

/-- The places that these bytes need. -/
def placesFor (off n : Nat) : List BlockPlace :=
  (if ∃ bn ∈ blocksFor off n, ndirect ≤ bn then [pointer] else []) ++
    (blocksFor off n).filterMap placeOf

theorem mem_blocksFor_iff {bn : Nat} :
    bn ∈ blocksFor off n ↔ ∃ pos, off ≤ pos ∧ pos < off + n ∧ pos / bsize = bn := by
  unfold blocksFor
  split
  · simp only [not_mem_nil, false_iff]
    omega
  · rw [mem_range'_1]
    constructor
    · intro bounds
      refine ⟨max off (bn * bsize), ?_⟩
      unfold bsize at *
      omega
    · unfold bsize
      omega

theorem covers_placesFor {pos : Nat} (above : off ≤ pos) (below : pos < off + n) :
    Covers (placesFor off n) (pos / bsize) := by
  have member : pos / bsize ∈ blocksFor off n := mem_blocksFor_iff.mpr ⟨pos, above, below, rfl⟩
  constructor
  · intro place at_pos
    exact mem_append_right _ (mem_filterMap.mpr ⟨_, member, at_pos⟩)
  · intro beyond
    refine mem_append_left _ ?_
    rw [if_pos ⟨_, member, beyond⟩]
    exact mem_singleton_self _

theorem nodup_blocksFor (off n : Nat) : (blocksFor off n).Nodup := by
  unfold blocksFor
  split
  · exact nodup_nil
  · exact nodup_range'

theorem nodup_placesFor (off n : Nat) : (placesFor off n).Nodup := by
  have blocks : ((blocksFor off n).filterMap placeOf).Nodup := by
    refine Nodup.filterMap (fun first second place firstAt secondAt =>
      placeOf_injective firstAt secondAt) (nodup_blocksFor off n)
  refine Nodup.append ?_ blocks ?_
  · split
    · exact nodup_singleton _
    · exact nodup_nil
  · intro place isTable isBlock
    obtain ⟨bn, -, at_bn⟩ := mem_filterMap.mp isBlock
    split at isTable
    · rw [mem_singleton.mp isTable] at at_bn
      exact placeOf_ne_pointer bn at_bn
    · exact not_mem_nil isTable

/-- The places of bytes below the size of a file that has all its blocks. -/
theorem held_placesFor {volume : Volume} {inum : Nat} (mapped : Mapped volume inum)
    (inside : off + n ≤ (volume.nodes inum).size) {place : BlockPlace}
    (member : place ∈ placesFor off n) : volume.held (inum, place) ≠ 0 := by
  have used bn (touched : bn ∈ blocksFor off n) : volume.blockOf inum bn ≠ 0 := by
    obtain ⟨pos, -, below, rfl⟩ := mem_blocksFor_iff.mp touched
    exact mapped.blockOf (by omega)
  rcases mem_append.mp member with isTable | isBlock
  · split at isTable
    · rename_i beyond
      obtain ⟨bn, touched, beyond⟩ := beyond
      obtain ⟨place', at_bn, -, block_eq⟩ := exists_place_of_blockOf (used bn touched)
      have held := used bn touched
      rw [block_eq] at held
      rw [placeOf, dif_neg (not_lt.mpr beyond)] at at_bn
      split at at_bn
      · obtain rfl := Option.some.inj at_bn
        rw [mem_singleton.mp isTable, pointer, held_addr (live_of_held held)]
        exact table_of_held held
      · contradiction
    · exact absurd isTable not_mem_nil
  · obtain ⟨bn, touched, at_bn⟩ := mem_filterMap.mp isBlock
    rw [← blockOf_eq at_bn]
    exact used bn touched

/-- A file has at most `MAXFILE` blocks. -/
theorem Volume.Mapped.size_le {volume : Volume} {inum : Nat} (mapped : Mapped volume inum) :
    (volume.nodes inum).size ≤ maxfile * bsize := by
  by_contra large
  have used := mapped maxfile (not_le.mp large)
  obtain ⟨place, at_end, -⟩ := exists_place_of_blockOf used
  exact lt_irrefl _ (lt_maxfile_of_placeOf at_end)

/-! ## Files in a slot -/

/-- A file or directory in a slot: the blocks below its size are there, no block is
shared, and the in-core copy agrees with the disk. -/
structure ByteFile (fs : Fs) (ip : Islot) : Prop where
  laid : Laid fs.sb fs.volume
  type : (fs.icache ip).type = .file ∨ (fs.icache ip).type = .dir
  clean : (fs.icache ip).toDinode = fs.inodes (fs.icache ip).inum
  mapped : Mapped fs.volume (fs.icache ip).inum

namespace ByteFile

section

variable (file : ByteFile fs ip)

include file

theorem live : (fs.icache ip).type ≠ .free := by
  rcases file.type with isFile | isDir
  · simp [isFile]
  · simp [isDir]

theorem notDev : (fs.icache ip).type ≠ .dev := by
  rcases file.type with isFile | isDir
  · simp [isFile]
  · simp [isDir]

theorem edited : fs.edited ip = fs.volume :=
  edited_eq file.clean

theorem size : (fs.volume.nodes (fs.icache ip).inum).size = (fs.icache ip).size :=
  congrArg Dinode.size file.clean.symm

theorem size_le : (fs.icache ip).size ≤ maxfile * bsize :=
  file.size ▸ file.mapped.size_le

end

end ByteFile

/-- The file in a slot after some bytes have been written at an offset. -/
structure Rewritten (ip : Islot) (off : Nat) (src : List Byte) (fs target : Fs) : Prop where
  sb : target.sb = fs.sb
  slots : ∀ other ≠ ip, target.icache other = fs.icache other
  inode : ∃ addrs, target.icache ip = { fs.icache ip with
    addrs := addrs, size := max (fs.icache ip).size (off + src.length) }
  file : ByteFile target ip
  contents : target.volume.contents (fs.icache ip).inum =
    (fs.volume.contents (fs.icache ip).inum).take off ++ src ++
      (fs.volume.contents (fs.icache ip).inum).drop (off + src.length)
  nodes : ∀ other ≠ (fs.icache ip).inum, target.inodes other = fs.inodes other
  others : ∀ other ≠ (fs.icache ip).inum, Mapped fs.volume other →
    target.volume.contents other = fs.volume.contents other ∧ Mapped target.volume other

/-- Another file keeps its blocks and its bytes. -/
theorem Volume.Written.other {volume after : Volume} {inum other : Nat}
    (written : Written inum off src volume after) (ne : other ≠ inum)
    (mapped : Mapped volume other) :
    after.contents other = volume.contents other ∧ Mapped after other := by
  have node := written.nodes other ne
  have kept bn (used : volume.blockOf other bn ≠ 0) :
      after.blockOf other bn = volume.blockOf other bn := written.blockOf used
  constructor
  · refine ext_getElem (by simp [node]) fun index bound bound' => ?_
    rw [getElem_contents, getElem_contents]
    have used := mapped.blockOf (by simpa using bound')
    obtain ⟨place, -, -, block_eq⟩ := exists_place_of_blockOf used
    rw [byteOf, byteOf, kept _ used, block_eq, written.data _ ne (block_eq ▸ used)]
  · intro bn bound
    rw [node] at bound
    rw [kept bn (mapped bn bound)]
    exact mapped bn bound

/-! ## What a write leaves -/

section Finish

variable (file : ByteFile fs ip)
  (grows : Extends (placesFor off src.length) ip fs middle)
  (written : Written (fs.icache ip).inum off src (fs.edited ip) (middle.edited ip))
  (accepted : ¬Refused (fs.icache ip).size off src.length)

include file grows written

/-- A write below the size allocates nothing. -/
theorem icache_of_inside (inside : off + src.length ≤ (fs.icache ip).size) :
    middle.icache ip = fs.icache ip := by
  obtain ⟨addrs, inode_eq⟩ := grows.inode
  have live := file.live
  have addrs_eq : addrs = (fs.icache ip).addrs := by
    funext index
    have held_eq : (middle.edited ip).held ((fs.icache ip).inum, .addr index) =
        (fs.edited ip).held ((fs.icache ip).inum, .addr index) := by
      by_cases member : .addr index ∈ placesFor off src.length
      · refine written.held _ (held_placesFor ?_ ?_ member)
        · rw [file.edited]
          exact file.mapped
        · rw [file.edited, file.size]
          exact inside
      · exact grows.within _ member
    have node_eq : (middle.edited ip).nodes (fs.icache ip).inum = (middle.icache ip).toDinode := by
      rw [← grows.inum, node_edited]
    rw [held_addr (by rw [node_eq, grows.type]; exact live), node_eq, inode_eq,
      held_addr (by rw [node_edited]; exact live), node_edited] at held_eq
    exact held_eq
  rw [inode_eq, addrs_eq]

include accepted

/-- The disk after a write has the in-core inode with its new size. -/
theorem finishWrite_spec :
    (middle.finishWrite ip off src).volume = (middle.edited ip).resize (fs.icache ip).inum
        (max (fs.icache ip).size (off + src.length)) ∧
      (middle.finishWrite ip off src).icache ip = { middle.icache ip with
        size := max (fs.icache ip).size (off + src.length) } ∧
      (∀ other ≠ ip, (middle.finishWrite ip off src).icache other = fs.icache other) ∧
      (middle.finishWrite ip off src).sb = fs.sb := by
  have offset : off ≤ (fs.icache ip).size := not_lt.mp fun beyond => accepted (.inl beyond)
  have inum_eq := grows.inum
  unfold finishWrite
  split
  · rename_i larger
    rw [grows.size] at larger
    have size_eq : max (fs.icache ip).size (off + src.length) = off + src.length := by omega
    rw [size_eq]
    refine ⟨Volume.ext ?_ rfl rfl, by simp, ?_, grows.sb⟩
    · simp [volume, edited, resize, setDinode, inum_eq]
    · intro other ne
      rw [icache_setDinode, icache_setInode_of_ne ne]
      exact grows.others other ne
  · rename_i notLarger
    rw [grows.size] at notLarger
    have inside : off + src.length ≤ (fs.icache ip).size := by omega
    have same := icache_of_inside file grows written inside
    have size_eq : max (fs.icache ip).size (off + src.length) = (fs.icache ip).size := by omega
    have clean : (middle.icache ip).toDinode = middle.inodes (middle.icache ip).inum := by
      rw [same, grows.inodes]
      exact file.clean
    rw [size_eq]
    refine ⟨?_, by rw [same], grows.others, grows.sb⟩
    rw [edited_eq clean, resize]
    have node : middle.volume.nodes (fs.icache ip).inum = (fs.icache ip).toDinode := by
      rw [file.clean]
      exact congrFun grows.inodes _
    simp only [node]
    rw [Function.update_eq_self_iff.mpr]
    exact node.symm

/-- The file is rewritten. -/
theorem rewritten_of_written : Rewritten ip off src fs (middle.finishWrite ip off src) := by
  obtain ⟨volume_eq, inode_eq, slots, sb⟩ := finishWrite_spec file grows written accepted
  obtain ⟨addrs, middle_eq⟩ := grows.inode
  have offset : off ≤ (fs.icache ip).size := not_lt.mp fun beyond => accepted (.inl beyond)
  have inum_eq : ((middle.finishWrite ip off src).icache ip).inum = (fs.icache ip).inum := by
    rw [inode_eq, middle_eq]
  have node_eq : (middle.edited ip).nodes (fs.icache ip).inum = (middle.icache ip).toDinode := by
    rw [← grows.inum, node_edited]
  rw [file.edited] at written
  have size_eq : max (fs.icache ip).size (off + src.length) =
      max (fs.volume.nodes (fs.icache ip).inum).size (off + src.length) := by
    rw [file.size]
  have within : off ≤ (fs.volume.nodes (fs.icache ip).inum).size := by
    rw [file.size]
    exact offset
  have laid : Laid fs.sb (middle.finishWrite ip off src).volume := by
    rw [volume_eq]
    exact ⟨grows.laid.sound.resize _ _, grows.laid.reserved, grows.laid.fits⟩
  refine ⟨sb, slots, ⟨addrs, by rw [inode_eq, middle_eq]⟩, ⟨sb ▸ laid, ?_, ?_, ?_⟩, ?_, ?_, ?_⟩
  · rw [inode_eq, middle_eq]
    exact file.type
  · have node := congrArg (fun volume => volume.nodes (fs.icache ip).inum) volume_eq
    rw [node_resize, node_eq] at node
    rw [inum_eq, inode_eq]
    exact node.symm
  · rw [inum_eq, volume_eq]
    exact written.mapped_resize file.mapped within size_eq
  · rw [volume_eq]
    exact written.contents file.mapped within size_eq
  · intro other ne
    have node := congrArg (fun volume => volume.nodes other) volume_eq
    rw [node_resize_of_ne _ ne, written.nodes other ne] at node
    exact node
  · intro other ne mapped
    obtain ⟨contents_eq, stays⟩ := written.other ne mapped
    rw [volume_eq]
    refine ⟨?_, ?_⟩
    · rw [← contents_eq, contents, node_resize_of_ne _ ne]
      exact map_congr_left fun pos _ => byteOf_resize ..
    · intro bn
      rw [node_resize_of_ne _ ne, blockOf_resize]
      exact stays bn

end Finish

/-- A write that returns has been refused and changes nothing, or rewrites the file. -/
theorem ByteFile.writei (file : ByteFile fs ip) (off : Nat) (src : List Byte) :
    Ensures (fun reason => ¬Refused (fs.icache ip).size off src.length ∧
        OutOfBlocks (placesFor off src.length) ip fs reason) (FileSystem.writei ip off src) fs
      fun written target =>
        if Refused (fs.icache ip).size off src.length then written = none ∧ target = fs
        else written = some src.length ∧ Rewritten ip off src fs target := by
  have covers pos (above : off ≤ pos) (below : pos < off + src.length) :
      Covers (placesFor off src.length) (pos / bsize) := covers_placesFor above below
  refine (ensures_writei (file.edited ▸ file.laid) file.live file.notDev
    (nodup_placesFor off src.length) covers).mono fun written target _ result => ?_
  by_cases refused : Refused (fs.icache ip).size off src.length
  · rw [if_pos refused] at result ⊢
    exact result
  · rw [if_neg refused] at result ⊢
    obtain ⟨written_eq, middle, grows, isWritten, rfl⟩ := result
    exact ⟨written_eq, rewritten_of_written file grows isWritten refused⟩

theorem ByteFile.writei_of_refused (file : ByteFile fs ip)
    (refused : Refused (fs.icache ip).size off src.length) :
    Runs (FileSystem.writei ip off src) fs none fs := by
  have ends := ensures_iff.mp (file.writei off src)
  rcases runs_or_fails (FileSystem.writei ip off src) fs with
    ⟨written, target, ran⟩ | ⟨reason, failed⟩
  · have result := ends.2 written target ran
    rw [if_pos refused] at result
    obtain ⟨rfl, rfl⟩ := result
    exact ran
  · exact absurd refused (ends.1 reason failed).1

/-- The end of `writei` changes only a size. -/
theorem edited_finishWrite (fs : Fs) (ip : Islot) (off : Nat) (src : List Byte) :
    ∃ size, (fs.finishWrite ip off src).edited ip =
      (fs.edited ip).resize (fs.icache ip).inum size := by
  unfold finishWrite
  split
  · refine ⟨off + src.length, Volume.ext ?_ rfl rfl⟩
    simp [edited, resize, setDinode]
  · refine ⟨(fs.icache ip).size, Volume.ext ?_ rfl rfl⟩
    simp [resize]

theorem Volume.enough_resize {sb : Superblock} {volume : Volume} {inum other size : Nat} :
    Enough sb inum places (volume.resize other size) ↔ Enough sb inum places volume := by
  unfold Enough empties
  simp only [held_resize]
  rfl

/-- With enough free blocks, also for places that are not needed yet, a write succeeds. -/
theorem ByteFile.writei_of_enough (file : ByteFile fs ip) (nodup : places.Nodup)
    (covers : ∀ pos, off ≤ pos → pos < off + src.length → Covers places (pos / bsize))
    (accepted : ¬Refused (fs.icache ip).size off src.length)
    (enough : Enough fs.sb (fs.icache ip).inum places fs.volume) :
    ∃ target, Runs (FileSystem.writei ip off src) fs (some src.length) target ∧
      Rewritten ip off src fs target ∧
      Enough fs.sb (fs.icache ip).inum places target.volume := by
  have grows := ensures_writei (file.edited ▸ file.laid) file.live file.notDev nodup covers
  rcases runs_or_fails (FileSystem.writei ip off src) fs with
    ⟨written, target, ran⟩ | ⟨reason, failed⟩
  · have grown := grows.of_runs ran
    have rewritten := (file.writei off src).of_runs ran
    rw [if_neg accepted] at grown rewritten
    obtain ⟨rfl, middle, extends', -, target_eq⟩ := grown
    refine ⟨target, ran, rewritten.2, ?_⟩
    obtain ⟨size, edited⟩ := edited_finishWrite middle ip off src
    rw [← rewritten.2.file.edited, target_eq, edited, enough_resize]
    exact extends'.enough (file.edited ▸ enough)
  · obtain ⟨-, -, few⟩ := (ensures_iff.mp grows).1 reason failed
    rw [file.edited] at few
    exact absurd enough few

/-- `readi` returns bytes of the contents and changes nothing. -/
theorem ByteFile.readi (file : ByteFile fs ip) (input : Option (List Byte)) (off n : Nat) :
    Runs (readi input ip off n) fs
      (if (fs.icache ip).size < off ∨ Overflows off n then none
        else some (((fs.volume.contents (fs.icache ip).inum).drop off).take n)) fs := by
  by_cases outside : (fs.icache ip).size < off ∨ Overflows off n
  · rw [if_pos outside]
    unfold FileSystem.readi
    rw [runs_bind]
    refine ⟨_, fs, runs_reading.mpr ⟨rfl, rfl⟩, ?_⟩
    rw [if_neg file.notDev, if_pos outside, runs_pure]
    exact ⟨rfl, rfl⟩
  rw [if_neg outside]
  obtain ⟨within, noOverflow⟩ := not_or.mp outside
  have read : Runs (FileSystem.readi input ip off n) fs
      (some (((fs.contentsAt ip).drop off).take n)) fs :=
    runs_readi_of_mapped file.notDev (not_lt.mp within) noOverflow (file.edited ▸ file.mapped)
  rwa [contentsAt, file.edited] at read

/-- `writei` and `readi` treat a file as an array of bytes. -/
theorem byteArray (file : ByteFile fs ip) (off n : Nat) (src : List Byte)
    (input : Option (List Byte)) :
    (Refused (fs.icache ip).size off src.length → Runs (writei ip off src) fs none fs) ∧
      (¬Refused (fs.icache ip).size off src.length →
        Enough fs.sb (fs.icache ip).inum (placesFor off src.length) fs.volume →
        ∃ target, Runs (writei ip off src) fs (some src.length) target ∧
          Rewritten ip off src fs target) ∧
      Runs (readi input ip off n) fs
        (if (fs.icache ip).size < off ∨ Overflows off n then none
          else some (((fs.volume.contents (fs.icache ip).inum).drop off).take n)) fs := by
  refine ⟨file.writei_of_refused, fun accepted enough => ?_, file.readi input off n⟩
  obtain ⟨target, ran, rewritten, -⟩ := file.writei_of_enough (nodup_placesFor off src.length)
    (fun _ => covers_placesFor) accepted enough
  exact ⟨target, ran, rewritten⟩

/-! ## The empty image -/

/-- The volume of an image. -/
def Image.volume (image : Image) : Volume :=
  ⟨image.inodes, image.bitmap, image.data⟩

/-- The only block in use is that of the root directory. -/
theorem held_emptyImage (key : Nat × BlockPlace) :
    emptyImage.volume.held key = if key = (rootino, .addr 0) then 59 else 0 := by
  obtain ⟨inum, place⟩ := key
  by_cases isRoot : inum = rootino
  · subst isRoot
    have node : emptyImage.volume.nodes rootino = { Dinode.zero .dir with
        nlink := 1, size := 512, addrs := fun index => if index = 0 then 59 else 0 } := rfl
    cases place with
    | addr index =>
      rw [held_addr (by decide), node]
      by_cases first : index = 0 <;> simp [first]
    | entry index =>
      rw [held_entry_of_no_table (by decide)]
      simp
  · have free : (emptyImage.volume.nodes inum).type = .free := by
      simp [Image.volume, emptyImage, isRoot, Dinode.zero]
    rw [held_of_free free, if_neg]
    exact fun same => isRoot (congrArg Prod.fst same)

theorem laid_emptyImage : Laid emptyImage.sb emptyImage.volume where
  sound := by
    refine ⟨by decide, ?_, ?_, ?_⟩
    · intro key used
      rw [held_emptyImage] at used ⊢
      split
      · decide
      · simp_all
    · intro key other used same
      rw [held_emptyImage] at used same
      rw [held_emptyImage] at same
      split at used
      · rename_i first
        rw [if_pos first] at same
        split at same
        · rename_i second
          rw [first, second]
        · contradiction
      · contradiction
    · intro block inside
      have marked : emptyImage.volume.bitmap block = decide (block.toNat < 60) := rfl
      rw [marked, decide_eq_true_iff]
      obtain ⟨lower, -⟩ := inside
      have lower : 59 ≤ block.toNat := lower
      constructor
      · intro upper
        refine ⟨(rootino, .addr 0), ?_⟩
        rw [held_emptyImage]
        exact BitVec.eq_of_toNat_eq (by simp; omega)
      · rintro ⟨key, rfl⟩
        rw [held_emptyImage] at lower ⊢
        split <;> decide
  reserved := by
    intro block below
    have below : block.toNat < 59 := below
    exact decide_eq_true (by omega)
  fits := by decide

theorem mapped_emptyImage : Mapped emptyImage.volume rootino := by
  intro bn bound
  have bound : bn * 512 < 512 := bound
  obtain rfl : bn = 0 := by omega
  decide

/-- The root directory of the empty image, locked. -/
def rootFs : Fs :=
  (boot emptyImage).fs.setInode 0 fun inode =>
    { inode with toDinode := emptyImage.inodes rootino, locked := true, valid := true }

theorem byteFile_rootFs : ByteFile rootFs 0 where
  laid := laid_emptyImage
  type := .inr rfl
  clean := rfl
  mapped := mapped_emptyImage

/-- Two bytes at the end of the root directory need a second block. -/
theorem byteArray_rootFs :
    ¬Refused (rootFs.icache 0).size 511 2 ∧
      Enough rootFs.sb (rootFs.icache 0).inum (placesFor 511 2) rootFs.volume ∧
      ∃ target, Runs (writei 0 511 [1, 2]) rootFs (some 2) target ∧
        Rewritten 0 511 [1, 2] rootFs target := by
  have accepted : ¬Refused (rootFs.icache 0).size 511 2 := by decide
  have enough : Enough rootFs.sb (rootFs.icache 0).inum (placesFor 511 2) rootFs.volume := by
    decide +kernel
  exact ⟨accepted, enough, (byteArray byteFile_rootFs 511 0 [1, 2] none).2.1 accepted enough⟩

end Xv6.FileSystem
