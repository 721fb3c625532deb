import Mathlib.Algebra.GroupWithZero.Nat
import Mathlib.Tactic.Common

/-!
# Disk blocks

A block is `BSIZE` bytes.  Kernel structures are laid over a block by casting
its address, so an `int` field is four consecutive bytes in the byte order of
the processor, least significant byte first.
-/

namespace Xv6

/-- A byte of memory. -/
abbrev Byte := BitVec 8

instance Byte.lawfulBEq : LawfulBEq Byte := inferInstance

/-- `BSIZE`, the block size. -/
def bsize : Nat := 512

/-- `FSSIZE`, the number of blocks of the file system. -/
def fssize : Nat := 1000

/-- `ROOTDEV`, the device with the file system and its log. -/
def rootdev : Nat := 1

/-- The data of a block, `uchar data[BSIZE]`. -/
abbrev Block := Fin bsize → Byte

namespace Block

/-- The number of `int` fields that fit into a block. -/
def words : Nat := bsize / 4

/-- Byte `offset` of the word with index `index`. -/
def byteOf (index : Fin words) (offset : Fin 4) : Fin bsize :=
  ⟨4 * index.val + offset.val, by
    have := index.isLt
    simp only [words, bsize] at *
    omega⟩

/-- The `int` at the word index. -/
def word (data : Block) (index : Fin words) : BitVec 32 :=
  data (byteOf index 3) ++ data (byteOf index 2) ++ data (byteOf index 1) ++ data (byteOf index 0)

/-- Store an `int` at the word index. -/
def setWord (data : Block) (index : Fin words) (value : BitVec 32) : Block := fun byte =>
  if byte.val / 4 = index.val then value.extractLsb' (8 * (byte.val % 4)) 8 else data byte

variable (data : Block)

theorem setWord_byteOf (index : Fin words) (value : BitVec 32) (offset : Fin 4) :
    data.setWord index value (byteOf index offset) = value.extractLsb' (8 * offset.val) 8 := by
  have quotient : (byteOf index offset).val / 4 = index.val := by
    simp only [byteOf]
    omega
  have remainder : (byteOf index offset).val % 4 = offset.val := by
    simp only [byteOf]
    omega
  rw [setWord, if_pos quotient, remainder]

/-- The bytes of a word, put together again. -/
theorem append_extractLsb' (value : BitVec 32) :
    value.extractLsb' 24 8 ++ value.extractLsb' 16 8 ++ value.extractLsb' 8 8 ++
      value.extractLsb' 0 8 = value := by
  apply BitVec.eq_of_getLsbD_eq
  intro bit bound
  simp only [BitVec.getLsbD_append]
  grind

@[simp]
theorem word_setWord_self (index : Fin words) (value : BitVec 32) :
    (data.setWord index value).word index = value := by
  simp only [word, setWord_byteOf]
  exact append_extractLsb' value

theorem word_setWord_of_ne {index other : Fin words} (value : BitVec 32)
    (ne : other ≠ index) : (data.setWord index value).word other = data.word other := by
  have untouched offset : data.setWord index value (byteOf other offset) = data
      (byteOf other offset) := by
    refine if_neg fun same => ne (Fin.ext ?_)
    simp only [byteOf] at same
    omega
  simp only [word, untouched]

theorem word_zero (index : Fin words) : word (fun _ => 0) index = 0 := by
  simp [word]

/-! ## Arrays of words -/

instance : NeZero words := ⟨by decide⟩

/-- The index of an array element; the arrays of the kernel lie inside a block. -/
def wordIndex (index : Nat) : Fin words := Fin.ofNat words index

variable {index : Nat}

theorem wordIndex_ne {other : Nat} (bound : index < words) (otherBound : other < words)
    (ne : index ≠ other) : wordIndex index ≠ wordIndex other := by
  intro same
  have values := congrArg Fin.val same
  simp only [wordIndex, Fin.ofNat, Nat.mod_eq_of_lt bound, Nat.mod_eq_of_lt otherBound] at values
  exact ne values

/-- Store an array, element by element. -/
def setWords (data : Block) (first : Nat) : List (BitVec 32) → Block
  | [] => data
  | value :: values => setWords (data.setWord (wordIndex first) value) (first + 1) values

/-- Read `count` elements of an array. -/
def getWords (data : Block) (first : Nat) : Nat → List (BitVec 32)
  | 0 => []
  | count + 1 => data.word (wordIndex first) :: getWords data (first + 1) count

@[simp]
theorem length_getWords (first count : Nat) :
    (data.getWords first count).length = count := by
  induction count generalizing first with
  | zero => rfl
  | succ count ih => simp [getWords, ih]

variable {values : List (BitVec 32)}

/-- The words before an array stay as they are. -/
theorem word_setWords_of_lt {first : Nat} (before : index < first)
    (bound : first + values.length ≤ words) :
    (data.setWords first values).word (wordIndex index) = data.word (wordIndex index) := by
  induction values generalizing data first with
  | nil => rfl
  | cons value values ih =>
    simp only [List.length_cons] at bound
    rw [setWords, ih _ (by omega) (by omega)]
    exact word_setWord_of_ne data value (wordIndex_ne (by omega) (by omega) (by omega))

/-- The words after an array stay as they are. -/
theorem word_setWords_of_ge {first : Nat} (after : first + values.length ≤ index)
    (bound : index < words) :
    (data.setWords first values).word (wordIndex index) = data.word (wordIndex index) := by
  induction values generalizing data first with
  | nil => rfl
  | cons value values ih =>
    simp only [List.length_cons] at after
    rw [setWords, ih _ (by omega)]
    exact word_setWord_of_ne data value (wordIndex_ne (by omega) (by omega) (by omega))

/-- An array is read back as it was stored. -/
theorem getWords_setWords (first : Nat) (bound : first + values.length ≤ words) :
    (data.setWords first values).getWords first values.length = values := by
  induction values generalizing data first with
  | nil => rfl
  | cons value values ih =>
    simp only [List.length_cons] at bound ⊢
    rw [setWords, getWords, ih _ (first + 1) (by omega),
      word_setWords_of_lt _ (by omega) (by omega), word_setWord_self]

end Block

end Xv6
