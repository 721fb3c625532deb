import Xv6.Grep.Core

/-!
# What a pattern matches

A pattern is read as a list of items, with an anchor on either side.  The items spell
a text if it falls into one piece for each of them; `match` finds such a text between
the anchors.
-/

namespace Xv6.Grep

open Shell (ascii)
open List

/-- A character of a pattern, and whether a `*` follows it. -/
structure Item where
  char : Byte
  starred : Bool
  deriving DecidableEq

/-- The items of a pattern. -/
def items : List Byte → List Item
  | [] => []
  | [c] => [⟨c, false⟩]
  | c :: next :: re =>
    if next = ascii '*' then ⟨c, true⟩ :: items re else ⟨c, false⟩ :: items (next :: re)

/-- A `$` without a star, which anchors the end if it is the last item. -/
def endMark : Item := ⟨ascii '$', false⟩

/-- The items without the anchor at their end. -/
def body (all : List Item) : List Item :=
  if all.getLast? = some endMark then all.dropLast else all

/-- The character stands for the other one. -/
def Accepts (c t : Byte) : Prop := c = ascii '.' ∨ c = t

/-- One character, or any number of them, for which the item stands. -/
def Item.Spells (item : Item) (text : List Byte) : Prop :=
  (item.starred = true ∨ text.length = 1) ∧ ∀ t ∈ text, Accepts item.char t

/-- The text is the concatenation of a piece for each item, in order. -/
def Spells : List Item → List Byte → Prop
  | [], text => text = []
  | item :: more, text =>
    ∃ piece rest, text = piece ++ rest ∧ item.Spells piece ∧ Spells more rest

/-- The items spell a text that starts here, and ends with the text if they say so. -/
def Here (all : List Item) (text : List Byte) : Prop :=
  ∃ middle after, text = middle ++ after ∧ Spells (body all) middle ∧
    (all.getLast? = some endMark → after = [])

/-- The pattern is found in the text. -/
def Matches (re text : List Byte) : Prop :=
  if re.head? = some (ascii '^') then Here (items re.tail) text
  else ∃ before rest, text = before ++ rest ∧ Here (items re) rest

variable {c : Byte} {here : List Byte → Bool} {text : List Byte}

theorem matchstar_iff : matchstar c here text = true ↔
    ∃ piece rest, text = piece ++ rest ∧ (∀ t ∈ piece, Accepts c t) ∧ here rest = true := by
  induction text with
  | nil =>
    rw [matchstar]
    constructor
    · intro found
      exact ⟨[], [], rfl, nofun, found⟩
    · rintro ⟨piece, rest, split, -, found⟩
      rw [(append_eq_nil_iff.mp split.symm).2] at found
      exact found
  | cons t text ih =>
    simp only [matchstar, Bool.or_eq_true, Bool.and_eq_true, decide_eq_true_eq, ih]
    constructor
    · rintro (found | ⟨accepts, piece, rest, rfl, all, found⟩)
      · exact ⟨[], t :: text, rfl, nofun, found⟩
      · have first : Accepts c t := accepts.symm.imp_right Eq.symm
        exact ⟨t :: piece, rest, rfl, forall_mem_cons.mpr ⟨first, all⟩, found⟩
    · rintro ⟨piece, rest, split, all, found⟩
      cases piece with
      | nil => exact .inl (split ▸ found)
      | cons u piece =>
        obtain ⟨rfl, rfl⟩ := cons.inj split
        obtain ⟨first, all⟩ := forall_mem_cons.mp all
        exact .inr ⟨first.symm.imp_left Eq.symm, piece, rest, rfl, all, found⟩

theorem matchone_iff : matchone c here text = true ↔
    ∃ t rest, text = t :: rest ∧ Accepts c t ∧ here rest = true := by
  cases text with
  | nil => simp [matchone]
  | cons t text => simp [matchone, Accepts]

/-- The first item takes its piece, and the others go on behind it. -/
theorem here_cons_iff {item : Item} {all : List Item} (inner : all ≠ [] ∨ item ≠ endMark) :
    Here (item :: all) text ↔ ∃ piece rest, text = piece ++ rest ∧ item.Spells piece ∧
      Here all rest := by
  have last : (item :: all).getLast? = some endMark ↔ all.getLast? = some endMark := by
    cases all with
    | nil => simpa using inner
    | cons other all => rw [getLast?_cons_cons]
  have rest : body (item :: all) = item :: body all := by
    unfold body
    rw [if_congr last rfl rfl]
    split
    · rename_i ends
      exact dropLast_cons_of_ne_nil (by rintro rfl; cases ends)
    · rfl
  unfold Here
  rw [last, rest]
  constructor
  · rintro ⟨_, after, rfl, ⟨piece, rest, rfl, spelled, more⟩, ends⟩
    exact ⟨piece, rest ++ after, append_assoc .., spelled, rest, after, rfl, more, ends⟩
  · rintro ⟨piece, _, rfl, spelled, rest, after, rfl, more, ends⟩
    exact ⟨piece ++ rest, after, (append_assoc ..).symm, ⟨piece, rest, rfl, spelled, more⟩, ends⟩

theorem here_single_iff {all : List Item} (inner : all ≠ [] ∨ (⟨c, false⟩ : Item) ≠ endMark) :
    Here (⟨c, false⟩ :: all) text ↔ ∃ t rest, text = t :: rest ∧ Accepts c t ∧ Here all rest := by
  rw [here_cons_iff inner]
  constructor
  · rintro ⟨piece, rest, rfl, ⟨one, accepts⟩, more⟩
    obtain ⟨t, rfl⟩ := length_eq_one_iff.mp (one.resolve_left Bool.false_ne_true)
    exact ⟨t, rest, rfl, accepts t mem_cons_self, more⟩
  · rintro ⟨t, rest, rfl, accepts, more⟩
    exact ⟨[t], rest, rfl, ⟨.inr rfl, by simpa using accepts⟩, more⟩

theorem here_starred_iff {all : List Item} :
    Here (⟨c, true⟩ :: all) text ↔
      ∃ piece rest, text = piece ++ rest ∧ (∀ t ∈ piece, Accepts c t) ∧ Here all rest := by
  rw [here_cons_iff (.inr (by simp [endMark]))]
  simp [Item.Spells]

theorem matchhere_iff (re text : List Byte) : matchhere re text = true ↔ Here (items re) text := by
  induction re using items.induct generalizing text with
  | case1 => exact iff_of_true rfl ⟨[], text, rfl, rfl, nofun⟩
  | case2 c =>
    rw [matchhere, items]
    split
    · rename_i dollar
      subst dollar
      rw [List.isEmpty_iff]
      constructor
      · intro empty
        exact ⟨[], text, rfl, rfl, fun _ => empty⟩
      · rintro ⟨middle, after, rfl, spelled, ends⟩
        rw [show middle = [] from spelled, ends rfl, append_nil]
    · rename_i plain
      rw [matchone_iff, here_single_iff (.inr fun mark => plain (congrArg Item.char mark))]
      have last rest : Here [] rest := ⟨[], rest, rfl, rfl, nofun⟩
      simp [matchhere, last]
  | case3 c re ih =>
    rw [matchhere, if_pos rfl, matchstar_iff, items, if_pos rfl, here_starred_iff]
    simp only [ih]
  | case4 c next re plain ih =>
    have more : items (next :: re) ≠ [] := by
      cases re with
      | nil => simp [items]
      | cons d re => unfold items; split <;> simp
    rw [matchhere, if_neg plain, matchone_iff, items, if_neg plain, here_single_iff (.inl more)]
    simp only [ih]

/-- The loop over the text passes any characters, as `.*` does. -/
theorem matchany_eq (re text : List Byte) :
    matchany re text = matchstar (ascii '.') (matchhere re) text := by
  induction text with
  | nil => rfl
  | cons t text ih => simp [matchany, matchstar, ih]

theorem matchany_iff (re text : List Byte) : matchany re text = true ↔
    ∃ before rest, text = before ++ rest ∧ Here (items re) rest := by
  rw [matchany_eq, matchstar_iff]
  simp [Accepts, matchhere_iff]

/-- `match` returns 1 exactly on the texts in which the pattern is found. -/
theorem matchRe_iff_matches (re text : List Byte) : matchRe re text = true ↔ Matches re text := by
  unfold matchRe Matches
  split
  · exact matchhere_iff _ _
  · exact matchany_iff _ _

end Xv6.Grep
