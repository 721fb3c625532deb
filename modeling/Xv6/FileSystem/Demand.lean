import Mathlib.Data.Finset.Card
import Xv6.FileSystem.Journal

/-!
# The number of blocks that a write logs

A write logs every data block that its bytes lie in, the free map if one of these is
missing, the indirect block if a missing one is kept there, and the inode if the file
grows.
-/

namespace Xv6.FileSystem

open Xv6.Log (Blockno)
open Prog Volume List Fs Nat

variable {fs middle after : Fs} {ip : Islot} {off n bn : Nat} {src : List Byte}

/-- The number of blocks that a section logs for bytes of a file, where the file lacks
some blocks. -/
def demand (missing : Nat → Prop) [DecidablePred missing] (size off n : Nat) : Nat :=
  (blocksFor off n).length +
    (if ∃ bn ∈ blocksFor off n, missing bn then 1 else 0) +
    (if ∃ bn ∈ blocksFor off n, ndirect ≤ bn ∧ missing bn then 1 else 0) +
    (if size < off + n then 1 else 0)

theorem demand_congr {missing missing' : Nat → Prop} [DecidablePred missing]
    [DecidablePred missing'] {size size' : Nat} (same : ∀ bn, missing bn ↔ missing' bn)
    (grows : size < off + n ↔ size' < off + n) :
    demand missing size off n = demand missing' size' off n := by
  unfold demand
  simp only [same, grows]

/-! ## Missing blocks -/

theorem mem_blocksFor_one : bn ∈ blocksFor off 1 ↔ bn = off / bsize := by
  rw [mem_blocksFor_iff]
  constructor
  · rintro ⟨pos, above, below, rfl⟩
    rw [le_antisymm above (le_of_lt_succ below)]
  · rintro rfl
    exact ⟨off, le_refl _, lt_succ_self _, rfl⟩

/-- The bytes of two parts lie in the blocks of both. -/
theorem mem_blocksFor_append (bn off first second : Nat) :
    bn ∈ blocksFor off (first + second) ↔
      bn ∈ blocksFor off first ∨ bn ∈ blocksFor (off + first) second := by
  simp only [mem_blocksFor_iff]
  constructor
  · rintro ⟨pos, above, below, rfl⟩
    by_cases early : pos < off + first
    · exact .inl ⟨pos, above, early, rfl⟩
    · exact .inr ⟨pos, by omega, by omega, rfl⟩
  · rintro (⟨pos, above, below, rfl⟩ | ⟨pos, above, below, rfl⟩)
    · exact ⟨pos, above, by omega, rfl⟩
    · exact ⟨pos, by omega, by omega, rfl⟩

/-- The first turn of the loop writes into one block. -/
theorem mem_blocksFor_turn (positive : 0 < n) :
    bn ∈ blocksFor off n ↔ bn ∈ blocksFor off 1 ∨
      bn ∈ blocksFor (off + min n (bsize - off % bsize)) (n - (bsize - off % bsize)) := by
  have parts := mem_blocksFor_append bn off (min n (bsize - off % bsize))
    (n - (bsize - off % bsize))
  have first : bn ∈ blocksFor off (min n (bsize - off % bsize)) ↔ bn ∈ blocksFor off 1 := by
    rw [mem_blocksFor_one, mem_blocksFor_iff]
    unfold bsize
    constructor
    · omega
    · rintro rfl
      exact ⟨off, le_refl _, by omega, rfl⟩
  have whole : min n (bsize - off % bsize) + (n - (bsize - off % bsize)) = n := by omega
  rwa [whole, first] at parts

theorem not_mem_placesFor {place : BlockPlace} (at_bn : placeOf bn = some place)
    (untouched : bn ∉ blocksFor off n) : place ∉ placesFor off n := by
  intro member
  rcases mem_append.mp member with isTable | isBlock
  · split at isTable
    · rw [mem_singleton.mp isTable] at at_bn
      exact placeOf_ne_pointer bn at_bn
    · exact not_mem_nil isTable
  · obtain ⟨other, touched, at_other⟩ := mem_filterMap.mp isBlock
    rw [placeOf_injective at_bn at_other] at untouched
    exact untouched touched

/-- The blocks that a file lacks after some bytes have got theirs. -/
theorem blockAt_eq_zero_iff (grows : Extends (placesFor off n) ip fs after)
    (kept : ∀ key, (fs.edited ip).held key ≠ 0 →
      (after.edited ip).held key = (fs.edited ip).held key)
    (mapped : ∀ bn ∈ blocksFor off n, after.blockAt ip bn ≠ 0) (bn : Nat) :
    after.blockAt ip bn = 0 ↔ fs.blockAt ip bn = 0 ∧ bn ∉ blocksFor off n := by
  unfold blockAt at mapped ⊢
  rw [grows.inum] at mapped ⊢
  constructor
  · intro missing
    refine ⟨?_, fun touched => mapped bn touched missing⟩
    by_contra used
    obtain ⟨place, at_bn, -, block_eq⟩ := exists_place_of_blockOf used
    rw [block_eq] at used
    rw [blockOf_eq at_bn, kept _ used] at missing
    exact used missing
  · rintro ⟨missing, untouched⟩
    cases at_bn : placeOf bn with
    | none => rw [blockOf, at_bn]
    | some place =>
      rw [blockOf_eq at_bn] at missing ⊢
      rw [grows.within place (not_mem_placesFor at_bn untouched), missing]

/-- The indirect block stays. -/
theorem table_of_extends {places : List BlockPlace} (grows : Extends places ip fs after)
    (kept : ∀ key, (fs.edited ip).held key ≠ 0 →
      (after.edited ip).held key = (fs.edited ip).held key)
    (live : (fs.icache ip).type ≠ .free) (used : (fs.icache ip).addrs indirect ≠ 0) :
    (after.icache ip).addrs indirect = (fs.icache ip).addrs indirect := by
  have held_eq := kept ((fs.icache ip).inum, pointer)
  have node : (after.edited ip).nodes (fs.icache ip).inum = (after.icache ip).toDinode := by
    rw [← grows.inum, node_edited]
  rw [pointer, held_addr (by rw [node_edited]; exact live), node_edited,
    held_addr (by rw [node]; exact grows.type ▸ live), node] at held_eq
  exact held_eq used

/-- A block behind the direct ones is in the indirect block. -/
theorem table_of_blockAt (used : fs.blockAt ip bn ≠ 0) (beyond : ndirect ≤ bn) :
    (fs.icache ip).addrs indirect ≠ 0 := by
  obtain ⟨place, at_bn, -, block_eq⟩ := exists_place_of_blockOf used
  rw [blockAt, block_eq] at used
  rw [placeOf, dif_neg (not_lt.mpr beyond)] at at_bn
  split at at_bn
  · obtain rfl := Option.some.inj at_bn
    have table := table_of_held used
    rwa [node_edited] at table
  · cases at_bn

/-! ## The log of one call -/

/-- The blocks that are logged while bytes are written into some blocks of a file. -/
def record (ip : Islot) (blocks : List Nat) (fs after : Fs) : List DiskBlock :=
  blocks.map (fun bn => .data (after.blockAt ip bn)) ++
    (if ∃ bn ∈ blocks, fs.blockAt ip bn = 0 then [.bitmap 0] else []) ++
    (if ∃ bn ∈ blocks, ndirect ≤ bn ∧ fs.blockAt ip bn = 0 then
      [.data ((after.icache ip).addrs indirect)] else [])

variable {blocks : List Nat}

theorem mem_record_iff {entry : DiskBlock} :
    entry ∈ record ip blocks fs after ↔ (∃ bn ∈ blocks, entry = .data (after.blockAt ip bn)) ∨
      (entry = .bitmap 0 ∧ ∃ bn ∈ blocks, fs.blockAt ip bn = 0) ∨
      (entry = .data ((after.icache ip).addrs indirect) ∧
        ∃ bn ∈ blocks, ndirect ≤ bn ∧ fs.blockAt ip bn = 0) := by
  simp only [record, mem_append, mem_map, mem_ite_nil_right, mem_singleton,
    or_assoc, and_comm, eq_comm]

/-- The first block of a write and the others. -/
theorem mem_record_append {first rest whole : List Nat} {entry : DiskBlock}
    (split : ∀ bn, bn ∈ whole ↔ bn ∈ first ∨ bn ∈ rest)
    (stays : ∀ bn ∈ first, after.blockAt ip bn = middle.blockAt ip bn)
    (missing : ∀ bn, middle.blockAt ip bn = 0 ↔ fs.blockAt ip bn = 0 ∧ bn ∉ first)
    (table : ∀ bn ∈ first, ndirect ≤ bn →
      (after.icache ip).addrs indirect = (middle.icache ip).addrs indirect) :
    entry ∈ record ip whole fs after ↔
      entry ∈ record ip first fs middle ∨ entry ∈ record ip rest middle after := by
  -- a block that the second part finds missing was missing before, and the other way round
  have either (property : Nat → Prop) : (∃ bn ∈ whole, property bn ∧ fs.blockAt ip bn = 0) ↔
      (∃ bn ∈ first, property bn ∧ fs.blockAt ip bn = 0) ∨ ∃ bn ∈ rest, property bn ∧
      middle.blockAt ip bn = 0 := by
    simp only [split, missing]
    constructor
    · rintro ⟨bn, isFirst | isRest, holds, none⟩
      · exact .inl ⟨bn, isFirst, holds, none⟩
      · by_cases isFirst : bn ∈ first
        · exact .inl ⟨bn, isFirst, holds, none⟩
        · exact .inr ⟨bn, isRest, holds, none, isFirst⟩
    · rintro (⟨bn, isFirst, holds, none⟩ | ⟨bn, isRest, holds, none, -⟩)
      · exact ⟨bn, .inl isFirst, holds, none⟩
      · exact ⟨bn, .inr isRest, holds, none⟩
  have anyBlock := either fun _ => True
  have anyEntry := either fun bn => ndirect ≤ bn
  simp only [true_and] at anyBlock
  simp only [mem_record_iff, anyBlock, anyEntry]
  have data : (∃ bn ∈ whole, entry = .data (after.blockAt ip bn)) ↔
      (∃ bn ∈ first, entry = .data (middle.blockAt ip bn)) ∨
        ∃ bn ∈ rest, entry = .data (after.blockAt ip bn) := by
    simp only [split, or_and_right, exists_or]
    rw [exists_congr fun bn => and_congr_right fun isFirst => by rw [stays bn isFirst]]
  have tables : (∃ bn ∈ first, ndirect ≤ bn ∧ fs.blockAt ip bn = 0) →
      (after.icache ip).addrs indirect = (middle.icache ip).addrs indirect :=
    fun ⟨bn, isFirst, beyond, _⟩ => table bn isFirst beyond
  rw [data]
  by_cases entries : ∃ bn ∈ first, ndirect ≤ bn ∧ fs.blockAt ip bn = 0
  · rw [tables entries]
    simp only [and_or_left]
    exact iff_of_eq (by ac_rfl)
  · simp only [entries, and_false, and_or_left]
    exact iff_of_eq (by ac_rfl)

theorem length_record (ip : Islot) (blocks : List Nat) (fs after : Fs) :
    (record ip blocks fs after).length = blocks.length +
      (if ∃ bn ∈ blocks, fs.blockAt ip bn = 0 then 1 else 0) +
      (if ∃ bn ∈ blocks, ndirect ≤ bn ∧ fs.blockAt ip bn = 0 then 1 else 0) := by
  simp only [record, length_append, length_map, apply_ite length, length_nil, length_singleton]

/-- The logged blocks are different blocks. -/
theorem nodup_record (fs : Fs) {sb : Superblock} (sound : Volume.Sound sb (after.edited ip))
    (live : (after.icache ip).type ≠ .free) (mapped : ∀ bn ∈ blocks, after.blockAt ip bn ≠ 0)
    (nodup : blocks.Nodup) : (record ip blocks fs after).Nodup := by
  have injective first (firstIn : first ∈ blocks) second (secondIn : second ∈ blocks)
      (same : DiskBlock.data (after.blockAt ip first) = .data (after.blockAt ip second)) :
      first = second := by
    obtain ⟨place, at_first, -, first_eq⟩ := exists_place_of_blockOf (mapped first firstIn)
    obtain ⟨other, at_second, -, second_eq⟩ := exists_place_of_blockOf (mapped second secondIn)
    have used := mapped first firstIn
    rw [DiskBlock.data.injEq] at same
    unfold blockAt at same used
    rw [first_eq] at used
    rw [first_eq, second_eq] at same
    have place_eq : place = other := congrArg Prod.snd (sound.exclusive _ _ used same)
    exact placeOf_injective at_first (place_eq ▸ at_second)
  have table : ∀ bn ∈ blocks, after.blockAt ip bn ≠ (after.icache ip).addrs indirect := by
    intro bn member same
    obtain ⟨place, at_bn, notTable, block_eq⟩ := exists_place_of_blockOf (mapped bn member)
    have used := mapped bn member
    have held_pointer : (after.edited ip).held ((after.icache ip).inum, pointer) =
        (after.icache ip).addrs indirect := by
      rw [pointer, held_addr (by rw [node_edited]; exact live), node_edited]
    unfold blockAt at same used
    rw [block_eq] at used
    rw [block_eq, ← held_pointer] at same
    exact notTable (congrArg Prod.snd (sound.exclusive _ _ used same))
  unfold record
  refine Nodup.append (Nodup.append ?_ ?_ ?_) ?_ ?_
  · exact Nodup.map_on injective nodup
  · split
    · exact nodup_singleton _
    · exact nodup_nil
  · intro entry isData isMap
    obtain ⟨bn, -, rfl⟩ := mem_map.mp isData
    simp at isMap
  · split
    · exact nodup_singleton _
    · exact nodup_nil
  · intro entry earlier isTable
    have entry_eq : entry = .data ((after.icache ip).addrs indirect) := by
      rw [mem_ite_nil_right, mem_singleton] at isTable
      exact isTable.2
    rcases mem_append.mp earlier with isData | isMap
    · obtain ⟨bn, member, rfl⟩ := mem_map.mp isData
      exact table bn member (DiskBlock.data.inj entry_eq)
    · rw [mem_ite_nil_right, mem_singleton, entry_eq] at isMap
      cases isMap.2

namespace Logged

variable {state target : Logged} {block : Blockno} {entry : DiskBlock}

variable {value : Unit}

theorem runs_logWrite :
    Runs (logWrite entry) state value target ↔
      { state with logged := entry :: state.logged } = target :=
  runs_update

theorem logged_quiet {α : Type} {prog : FsM α} {value : α}
    (ran : Runs (quiet prog) state value target) : target.logged = state.logged := by
  obtain ⟨_, -, rfl⟩ := runs_on.mp ran
  rfl

/-- `balloc` logs the free map and the block. -/
theorem logged_balloc (oneMap : state.fs.sb.size ≤ bitsPerBlock)
    (ran : Runs balloc state block target) :
    target.logged = .data block :: .bitmap 0 :: state.logged := by
  unfold balloc at ran
  simp only [runs_bind, runs_logWrite, runs_pure] at ran
  obtain ⟨_, middle, allocated, _, _, rfl, _, _, rfl, rfl, rfl⟩ := ran
  have logged_eq := logged_quiet allocated
  have fits : state.fs.sb.size ≤ 2 ^ 32 := oneMap.trans (by decide)
  obtain ⟨-, bound, -⟩ :=
    (ensures_balloc fits).of_runs ((projects_quiet _).runs allocated)
  rw [div_eq_of_lt (bound.trans_le oneMap), logged_eq]

theorem logged_mapAddr {index : Fin (ndirect + 1)} (oneMap : state.fs.sb.size ≤ bitsPerBlock)
    (ran : Runs (mapAddr ip index) state block target) :
    target.logged = if (state.fs.icache ip).addrs index = 0 then
      .data block :: .bitmap 0 :: state.logged else state.logged := by
  unfold mapAddr at ran
  simp only [runs_bind, runs_reading] at ran
  obtain ⟨_, _, ⟨rfl, rfl⟩, ran⟩ := ran
  split at ran
  · rename_i none
    simp only [runs_bind, runs_pure] at ran
    obtain ⟨_, middle, allocated, _, _, stored, rfl, rfl⟩ := ran
    rw [if_pos none, logged_quiet stored, logged_balloc oneMap allocated]
  · rename_i used
    obtain ⟨-, rfl⟩ := runs_pure.mp ran
    rw [if_neg used]

theorem logged_mapEntry {table : Blockno} {index : Fin Block.words}
    (oneMap : state.fs.sb.size ≤ bitsPerBlock)
    (ran : Runs (mapEntry table index) state block target) :
    target.logged = if (state.fs.data table).word index = 0 then
      .data table :: .data block :: .bitmap 0 :: state.logged else state.logged := by
  unfold mapEntry at ran
  simp only [runs_bind, runs_reading] at ran
  obtain ⟨_, _, ⟨rfl, rfl⟩, ran⟩ := ran
  split at ran
  · rename_i none
    simp only [runs_bind, runs_logWrite, runs_pure] at ran
    obtain ⟨_, middle, allocated, _, _, stored, _, _, rfl, rfl, rfl⟩ := ran
    rw [if_pos none, logged_quiet stored, logged_balloc oneMap allocated]
  · rename_i used
    obtain ⟨-, rfl⟩ := runs_pure.mp ran
    rw [if_neg used]

/-- `bmap` logs nothing for a block that is there; for a missing one it logs the new block,
the free map and, behind the direct blocks, the indirect block. -/
theorem mem_logged_bmap (laid : Laid state.fs.sb (state.fs.edited ip))
    (live : (state.fs.icache ip).type ≠ .free) (oneMap : state.fs.sb.size ≤ bitsPerBlock)
    (ran : Runs (bmap ip bn) state block target) :
    entry ∈ target.logged ↔ entry ∈ state.logged ∨ state.fs.blockAt ip bn = 0 ∧
      (entry = .data block ∨ entry = .bitmap 0 ∨
        ndirect ≤ bn ∧ entry = .data ((target.fs.icache ip).addrs indirect)) := by
  unfold bmap at ran
  split at ran
  · rename_i direct
    have at_bn := placeOf_direct direct
    rw [logged_mapAddr oneMap ran, blockAt, blockOf_eq at_bn,
      held_addr (by rw [node_edited]; exact live), node_edited]
    split
    · rename_i missing
      simp only [mem_cons, not_le.mpr direct]
      tauto
    · rename_i used
      simp only [used, false_and, or_false]
  · split at ran
    · rename_i beyond inTable
      have at_bn := placeOf_entry beyond inTable
      obtain ⟨table, middle, found, ran⟩ := runs_bind.mp ran
      have pointed : pointer ∈ [pointer] := mem_singleton_self _
      obtain ⟨⟨grows, -⟩, rfl, used⟩ := (ensures_mapAddr laid live (nodup_singleton pointer)
        pointed).of_runs ((projects_mapAddr ..).runs found)
      have oneMap' : middle.fs.sb.size ≤ bitsPerBlock := grows.sb ▸ oneMap
      have live' : (middle.fs.icache ip).type ≠ .free := grows.type ▸ live
      obtain ⟨⟨later, grown⟩, -⟩ := (ensures_mapEntry (grows.sb ▸ grows.laid) live'
        (nodup_singleton _) (mem_singleton_self _) used).of_runs ((projects_mapEntry ..).runs ran)
      have table_eq : (target.fs.icache ip).addrs indirect =
          (middle.fs.icache ip).addrs indirect :=
        table_of_extends later grown.held live' used
      have word_eq : state.fs.blockAt ip bn =
          (middle.fs.data ((middle.fs.icache ip).addrs indirect)).word ⟨bn - ndirect, inTable⟩ := by
        rw [blockAt, blockOf_eq at_bn, ← grows.within _ (by simp [pointer]), ← grows.inum,
          held_entry (by rw [node_edited]; exact live') (by rw [node_edited]; exact used),
          node_edited]
        rfl
      have missing_of_noTable : (state.fs.icache ip).addrs indirect = 0 →
          state.fs.blockAt ip bn = 0 := by
        intro noTable
        rw [blockAt, blockOf_eq at_bn, held_entry_of_no_table]
        rw [node_edited]
        exact noTable
      rw [logged_mapEntry oneMap' ran, ← word_eq, logged_mapAddr oneMap found]
      by_cases missing : state.fs.blockAt ip bn = 0
      · split <;> grind
      · rw [if_neg missing, if_neg fun noTable => missing (missing_of_noTable noTable)]
        simp only [missing, false_and, or_false]
    · exact (runs_stop.mp ran).elim

/-- What a turn leaves. -/
structure Turned (ip : Islot) (off : Nat) (state target : Logged) : Prop where
  grows : Extends (placesFor off 1) ip state.fs target.fs
  kept : ∀ key, (state.fs.edited ip).held key ≠ 0 →
    (target.fs.edited ip).held key = (state.fs.edited ip).held key
  used : target.fs.blockAt ip (off / bsize) ≠ 0
  logged : ∀ entry, entry ∈ target.logged ↔ entry ∈ state.logged ∨
    entry ∈ record ip (blocksFor off 1) state.fs target.fs

/-- A turn finds a block, copies bytes into it and logs it. -/
theorem turned_of_bmap {middle : Logged} (laid : Laid state.fs.sb (state.fs.edited ip))
    (live : (state.fs.icache ip).type ≠ .free) (oneMap : state.fs.sb.size ≤ bitsPerBlock)
    (bound : off < maxfile * bsize) (found : Runs (bmap ip (off / bsize)) state block middle)
    (data : Block) :
    Turned ip off state ⟨middle.fs.setBlock block data, .data block :: middle.logged⟩ := by
  have inFile : off / bsize < maxfile := Nat.div_lt_of_lt_mul (by exact bound)
  have covers : Covers (placesFor off 1) (off / bsize) :=
    covers_placesFor (le_refl off) (lt_succ_self off)
  obtain ⟨⟨grows, grown⟩, rfl, used⟩ := (ensures_bmap laid live (nodup_placesFor off 1)
    inFile covers).of_runs ((projects_bmap ..).runs found)
  have stays bn : (middle.fs.setBlock (middle.fs.blockAt ip (off / bsize)) data).blockAt ip bn =
      middle.fs.blockAt ip bn := grows.laid.sound.blockOf_copy used _ _ bn
  refine ⟨grows.setBlock used data, fun key held => ?_, ?_, fun entry => ?_⟩
  · rw [← grown.held key held]
    exact grows.laid.sound.held_copy used _ key
  · rw [stays]
    exact used
  · rw [mem_cons, mem_logged_bmap laid live oneMap found, mem_record_iff]
    simp only [mem_blocksFor_one]
    change _ ↔ _ ∨ _ ∨ _ ∨ (entry = .data ((middle.fs.icache ip).addrs indirect) ∧ _)
    grind

/-- The loop of `writei` logs the blocks of the bytes. -/
theorem mem_logged_writeBlocks {turns : Nat} (enough : src.length ≤ turns)
    (laid : Laid state.fs.sb (state.fs.edited ip)) (live : (state.fs.icache ip).type ≠ .free)
    (oneMap : state.fs.sb.size ≤ bitsPerBlock) (bound : off + src.length ≤ maxfile * bsize)
    (ran : Runs (writeBlocks ip turns off src) state value target) :
    entry ∈ target.logged ↔ entry ∈ state.logged ∨
      entry ∈ record ip (blocksFor off src.length) state.fs target.fs := by
  induction turns generalizing state off src with
  | zero =>
    obtain rfl := length_eq_zero_iff.mp (le_zero.mp enough)
    obtain ⟨-, rfl⟩ := runs_pure.mp ran
    simp [record, blocksFor]
  | succ turns ih =>
    unfold writeBlocks at ran
    by_cases none : src = []
    · subst none
      obtain ⟨-, rfl⟩ := runs_pure.mp ran
      simp [record, blocksFor]
    rw [if_neg none] at ran
    have positive : 0 < src.length := length_pos_iff.mpr none
    have room : off % bsize < bsize := mod_lt _ (by decide)
    simp only [runs_bind, runs_logWrite] at ran
    obtain ⟨block, middle, found, _, _, copies, _, _, rfl, ran⟩ := ran
    obtain ⟨_, copied, rfl⟩ := runs_on.mp copies
    rw [runs_update] at copied
    subst copied
    have turned := turned_of_bmap laid live oneMap (by omega) found
      ((middle.fs.data block).splice (off % bsize) (src.take (bsize - off % bsize)))
    have taken : min src.length (bsize - off % bsize) + (src.drop (bsize - off % bsize)).length =
        src.length := by
      rw [length_drop]
      omega
    have enough' : (src.drop (bsize - off % bsize)).length ≤ turns := by omega
    have bound' : off + min src.length (bsize - off % bsize) +
        (src.drop (bsize - off % bsize)).length ≤ maxfile * bsize := by omega
    have laid' := turned.grows.sb ▸ turned.grows.laid
    have live' := turned.grows.type ▸ live
    obtain ⟨later, written⟩ := (ensures_writeBlocks enough' laid' live' (nodup_placesFor _ _)
      bound' fun pos above below => covers_placesFor above below).of_runs
        ((projects_writeBlocks ..).runs ran)
    rw [ih enough' laid' live' (turned.grows.sb ▸ oneMap) bound' ran, turned.logged, or_assoc]
    refine or_congr Iff.rfl (mem_record_append (fun bn => ?_) ?_ ?_ ?_).symm
    · rw [length_drop]
      exact mem_blocksFor_turn positive
    · intro bn isFirst
      rw [mem_blocksFor_one.mp isFirst, blockAt, later.inum]
      exact written.blockOf turned.used
    · refine blockAt_eq_zero_iff turned.grows turned.kept fun bn touched => ?_
      rw [mem_blocksFor_one.mp touched]
      exact turned.used
    · intro bn isFirst beyond
      refine table_of_extends later written.held live' (table_of_blockAt ?_ beyond)
      rw [mem_blocksFor_one.mp isFirst]
      exact turned.used

variable {written : Option Nat}

/-- A write that is refused does nothing. -/
theorem runs_writei_of_refused (notDev : (state.fs.icache ip).type ≠ .dev)
    (refused : Refused (state.fs.icache ip).size off src.length)
    (ran : Runs (writei ip off src) state written target) : written = none ∧ target = state := by
  unfold writei at ran
  simp only [runs_bind, runs_reading] at ran
  obtain ⟨_, _, ⟨rfl, rfl⟩, ran⟩ := ran
  rw [if_neg notDev] at ran
  split at ran
  · obtain ⟨rfl, rfl⟩ := runs_pure.mp ran
    exact ⟨rfl, rfl⟩
  · rename_i within
    have large : maxfile * bsize < off + src.length := by
      rcases refused with beyond | wraps | large
      · exact absurd (.inl beyond) within
      · exact absurd (.inr wraps) within
      · exact large
    rw [if_pos large] at ran
    obtain ⟨rfl, rfl⟩ := runs_pure.mp ran
    exact ⟨rfl, rfl⟩

/-- The end of `writei` logs the inode of a file that has grown. -/
theorem runs_writei (notDev : (state.fs.icache ip).type ≠ .dev)
    (accepted : ¬Refused (state.fs.icache ip).size off src.length)
    (ran : Runs (writei ip off src) state written target) :
    written = some src.length ∧ ∃ middle, Runs (writeBlocks ip src.length off src) state () middle ∧
      target.fs = middle.fs.finishWrite ip off src ∧
      target.logged = (if 0 < src.length ∧ (middle.fs.icache ip).size < off + src.length then
        [.inode ((middle.fs.icache ip).inum / inodesPerBlock)] else []) ++ middle.logged := by
  unfold writei at ran
  simp only [runs_bind, runs_reading] at ran
  obtain ⟨_, _, ⟨rfl, rfl⟩, ran⟩ := ran
  rw [if_neg notDev, if_neg fun outside => accepted (outside.imp id .inl),
    if_neg fun large => accepted (.inr (.inr large))] at ran
  simp only [runs_bind, runs_reading, runs_whenever, runs_pure] at ran
  obtain ⟨_, middle, copied, _, _, ⟨rfl, rfl⟩, _, _, ended, rfl, rfl⟩ := ran
  refine ⟨rfl, middle, copied, ?_⟩
  unfold finishWrite
  rcases ended with ⟨larger, _, _, resized, stored⟩ | ⟨notLarger, rfl⟩
  · obtain ⟨_, resized_eq, rfl⟩ := runs_on.mp resized
    rw [runs_update] at resized_eq
    subst resized_eq
    unfold iupdate at stored
    simp only [runs_bind, runs_reading, runs_logWrite] at stored
    obtain ⟨_, _, ⟨rfl, rfl⟩, _, _, updated, rfl⟩ := stored
    obtain ⟨_, updated_eq, rfl⟩ := runs_on.mp updated
    rw [FileSystem.iupdate, runs_update] at updated_eq
    subst updated_eq
    rw [if_pos larger, if_pos larger]
    simp
  · rw [if_neg notLarger, if_neg notLarger]
    exact ⟨rfl, rfl⟩

/-- A section of `filewrite` that is not refused. -/
theorem demand_of_writei (file : ByteFile state.fs ip) (oneMap : state.fs.sb.size ≤ bitsPerBlock)
    (some : 0 < src.length) (accepted : ¬Refused (state.fs.icache ip).size off src.length)
    (fresh : state.logged = []) (ran : Runs (writei ip off src) state written target) :
    (∀ bn, target.fs.volume.blockOf (state.fs.icache ip).inum bn = 0 ↔
      state.fs.volume.blockOf (state.fs.icache ip).inum bn = 0 ∧ bn ∉ blocksFor off src.length) ∧
    target.logged.toFinset.card =
      demand (fun bn => state.fs.volume.blockOf (state.fs.icache ip).inum bn = 0)
        (state.fs.icache ip).size off src.length := by
  obtain ⟨-, middle, copied, target_eq, logged_eq⟩ := runs_writei file.notDev accepted ran
  have bound : off + src.length ≤ maxfile * bsize :=
    not_lt.mp fun large => accepted (.inr (.inr large))
  have laid : Laid state.fs.sb (state.fs.edited ip) := file.edited ▸ file.laid
  obtain ⟨grows, isWritten⟩ := (ensures_writeBlocks (le_refl _) laid file.live
    (nodup_placesFor off src.length) bound fun pos above below =>
      covers_placesFor above below).of_runs ((projects_writeBlocks ..).runs copied)
  have mapped bn (touched : bn ∈ blocksFor off src.length) : middle.fs.blockAt ip bn ≠ 0 := by
    obtain ⟨pos, above, below, rfl⟩ := mem_blocksFor_iff.mp touched
    rw [blockAt, grows.inum]
    exact isWritten.mapped pos above below
  have before bn : state.fs.blockAt ip bn = state.fs.volume.blockOf
      (state.fs.icache ip).inum bn := by
    rw [blockAt, file.edited]
  constructor
  · intro bn
    obtain ⟨volume_eq, -⟩ := finishWrite_spec file grows isWritten accepted
    have missing := blockAt_eq_zero_iff grows isWritten.held mapped bn
    rw [before, blockAt, grows.inum] at missing
    rw [target_eq, volume_eq, blockOf_resize]
    exact missing
  · have logged entry : entry ∈ middle.logged ↔
        entry ∈ record ip (blocksFor off src.length) state.fs middle.fs := by
      rw [mem_logged_writeBlocks (le_refl _) laid file.live oneMap bound copied, fresh]
      simp only [not_mem_nil, false_or]
    have nodup := nodup_record state.fs grows.laid.sound (grows.type ▸ file.live) mapped
      (nodup_blocksFor off src.length)
    have card : middle.logged.toFinset.card =
        (record ip (blocksFor off src.length) state.fs middle.fs).length := by
      rw [← toFinset_card_of_nodup nodup]
      congr 1
      ext entry
      rw [mem_toFinset, mem_toFinset, logged]
    rw [logged_eq, grows.size, demand]
    rw [length_record] at card
    simp only [before] at card
    split
    · rename_i larger
      have notLogged : DiskBlock.inode ((middle.fs.icache ip).inum / inodesPerBlock) ∉
          middle.logged.toFinset := by
        rw [mem_toFinset, logged, mem_record_iff]
        simp
      rw [singleton_append, toFinset_cons, Finset.card_insert_of_notMem notLogged, card,
        if_pos larger.2]
    · rename_i notLarger
      rw [nil_append, card, if_neg fun larger => notLarger ⟨some, larger⟩, add_zero]

end Logged

end Xv6.FileSystem
