import Mathlib.Data.Fintype.OfMap
import Xv6.Shell.Core

/-!
# The tokens of a command line

What `gettoken` and `peek` see of a line: the tokens that begin at or behind the
offset.  A word is a maximal run of characters that are neither whitespace nor
symbols.  `At line ps tokens` says that the tokens are those in front of the offset;
the two functions are specified by it, and what the parser does then depends on the
tokens only.
-/

namespace Xv6.Shell

open Prog List

/-- The symbols of the shell. -/
inductive Symbol where
  | input
  | output
  | append
  | bar
  | ampersand
  | semicolon
  | opened
  | closed
  deriving DecidableEq, Repr

instance : Fintype Symbol :=
  .ofList [.input, .output, .append, .bar, .ampersand, .semicolon, .opened, .closed]
    (by intro s; cases s <;> decide)

namespace Symbol

/-- The return value of `gettoken` for a symbol. -/
def code : Symbol → Byte
  | .input => ascii '<'
  | .output => ascii '>'
  | .append => ascii '+'
  | .bar => ascii '|'
  | .ampersand => ascii '&'
  | .semicolon => ascii ';'
  | .opened => ascii '('
  | .closed => ascii ')'

/-- The first character of a symbol. -/
def first : Symbol → Byte
  | .append => ascii '>'
  | other => other.code

/-- The symbol of a single character. -/
def ofByte (c : Byte) : Symbol :=
  if c = ascii '<' then .input
  else if c = ascii '>' then .output
  else if c = ascii '|' then .bar
  else if c = ascii '&' then .ampersand
  else if c = ascii ';' then .semicolon
  else if c = ascii '(' then .opened
  else .closed

end Symbol

/-- A token, a word with its place in the line. -/
inductive Token where
  | symbol (s : Symbol)
  | word (span : Span)
  deriving DecidableEq, Repr

/-- The tokens of a text that stands at an offset. -/
def lex (pos : Nat) : List Byte → List Token
  | [] => []
  | c :: rest =>
    if isSpace c = true then lex (pos + 1) rest
    else if isWord c = true then
      let run := (rest.takeWhile isWord).length
      .word ⟨pos, pos + 1 + run⟩ :: lex (pos + 1 + run) (rest.drop run)
    else if c = ascii '>' ∧ rest.head? = some (ascii '>') then
      .symbol .append :: lex (pos + 2) rest.tail
    else .symbol (.ofByte c) :: lex (pos + 1) rest
  termination_by text => text.length
  decreasing_by all_goals simp only [length_cons, length_drop, length_tail]; omega

/-- The tokens of a line. -/
def tokens (line : List Byte) : List Token := lex 0 line

/-- The return value of `gettoken` for a token. -/
def Token.code : Token → Byte
  | .symbol s => s.code
  | .word _ => ascii 'a'

/-- Whether the first of the tokens is one of the symbols that begin with these
characters. -/
def ahead (toks : List Byte) : List Token → Bool
  | .symbol s :: _ => toks.contains s.first
  | _ => false

/-- The offset stands in front of exactly these tokens. -/
structure At (line : List Byte) (ps : Nat) (ts : List Token) : Prop where
  le : ps ≤ line.length
  lex_eq : lex ps (line.drop ps) = ts

/-! ## Scanning -/

section Scan

variable {test : Byte → Bool} {line : List Byte}

variable {s : Nat} {c : Byte} {rest : List Byte}

theorem charAt_eq (drop : line.drop s = c :: rest) : charAt line s = c := by
  have found : (line.drop s)[0]? = some c := by rw [drop]; rfl
  rw [getElem?_drop, Nat.add_zero] at found
  rw [charAt, getD_eq_getElem?_getD, found, Option.getD_some]

theorem charAt_end : charAt line line.length = 0 := by
  simp [charAt]

theorem drop_succ (drop : line.drop s = c :: rest) : line.drop (s + 1) = rest := by
  rw [← drop_drop, drop, drop_one, tail_cons]

/-- The part of a list that passes a test is everything or ends where the test fails. -/
theorem takeWhile_cases (test : Byte → Bool) (text : List Byte) :
    (text.takeWhile test).length = text.length ∨
      ∃ c rest, text.drop (text.takeWhile test).length = c :: rest ∧ test c = false := by
  induction text with
  | nil => exact .inl rfl
  | cons c rest ih =>
    rw [takeWhile_cons]
    cases passes : test c with
    | false => exact .inr ⟨c, rest, rfl, passes⟩
    | true =>
      rcases ih with all | ⟨d, last, drop, stops⟩
      · exact .inl (congrArg (· + 1) all)
      · exact .inr ⟨d, last, drop, stops⟩

theorem lt_of_drop (drop : line.drop s = c :: rest) : s < line.length := by
  by_contra past
  rw [drop_eq_nil_of_le (Nat.le_of_not_lt past)] at drop
  cases drop

/-- The loop stops behind the characters that pass the test. -/
theorem scan_eq (s : Nat) :
    scan test line (line.length - s) s = s + ((line.drop s).takeWhile test).length := by
  generalize measure : line.length - s = fuel
  induction fuel generalizing s with
  | zero =>
    rw [drop_eq_nil_of_le (by omega)]
    rfl
  | succ fuel ih =>
    cases drop : line.drop s with
    | nil =>
      have := drop_eq_nil_iff.mp drop
      omega
    | cons c rest =>
      rw [scan, charAt_eq drop, takeWhile_cons]
      cases passes : test c with
      | false => rw [if_neg (by simp), if_neg (by simp), length_nil, Nat.add_zero]
      | true =>
        rw [if_pos ⟨lt_of_drop drop, rfl⟩, if_pos rfl, ih (s + 1) (by omega),
          drop_succ drop, length_cons]
        omega

end Scan

/-! ## Whitespace -/

section Tokens

variable {line toks : List Byte} {ps : Nat} {ts : List Token}

theorem lex_skip (pos : Nat) (text : List Byte) :
    lex (pos + (text.takeWhile isSpace).length) (text.drop (text.takeWhile isSpace).length) =
      lex pos text := by
  induction text generalizing pos with
  | nil => rfl
  | cons c rest ih =>
    rw [takeWhile_cons]
    by_cases space : isSpace c = true
    · rw [if_pos space, length_cons, drop_succ_cons, lex, if_pos space, ← ih (pos + 1),
        Nat.add_right_comm, Nat.add_assoc]
    · rw [if_neg space]
      rfl

theorem skipSpace_eq (ps : Nat) :
    skipSpace line ps = ps + ((line.drop ps).takeWhile isSpace).length :=
  scan_eq ps

/-- Skipping whitespace passes no token. -/
theorem At.skipSpace (at' : At line ps ts) : At line (skipSpace line ps) ts := by
  rw [skipSpace_eq]
  have short : ((line.drop ps).takeWhile isSpace).length ≤ (line.drop ps).length :=
    (takeWhile_sublist _).length_le
  rw [length_drop] at short
  refine ⟨by have := at'.le; omega, ?_⟩
  rw [← drop_drop, lex_skip, at'.lex_eq]

/-- Behind the whitespace the line ends or a token begins. -/
theorem skipSpace_cases (le : ps ≤ line.length) :
    Shell.skipSpace line ps = line.length ∨
      ∃ c rest, line.drop (Shell.skipSpace line ps) = c :: rest ∧ isSpace c = false := by
  rw [skipSpace_eq, ← drop_drop]
  rcases takeWhile_cases isSpace (line.drop ps) with all | ⟨c, rest, drop, stops⟩
  · rw [all, length_drop]
    omega
  · exact .inr ⟨c, rest, drop, stops⟩

/-! ## `peek` -/

variable {c : Byte}

theorem ofByte_first (isSymbol : c ∈ symbols) : (Symbol.ofByte c).first = c := by
  revert c
  decide

theorem mem_symbols (noSpace : isSpace c = false) (noWord : isWord c = false) : c ∈ symbols := by
  have outside : c ∉ whitespace := by simpa [isSpace] using noSpace
  simpa [isWord, outside] using noWord

theorem isWord_symbols (isSymbol : c ∈ symbols) : isWord c = false := by
  simp [isWord, isSymbol]

variable {rest : List Byte}

/-- What the first character says about the tokens. -/
theorem ahead_lex (noSpace : isSpace c = false) (areSymbols : ∀ c ∈ toks, c ∈ symbols) (pos : Nat) :
    ahead toks (lex pos (c :: rest)) = toks.contains c := by
  rw [lex, if_neg (by simp [noSpace])]
  by_cases word : isWord c = true
  · rw [if_pos word]
    symm
    rw [ahead, ← Bool.not_eq_true, contains_iff_mem]
    · intro mem
      rw [isWord_symbols (areSymbols c mem)] at word
      cases word
    · simp
  have isSymbol := mem_symbols noSpace (Bool.eq_false_iff.mpr word)
  rw [if_neg word]
  split
  · rename_i double
    rw [double.1]
    rfl
  · rw [ahead, ofByte_first isSymbol]

theorem At.peek_eq (areSymbols : ∀ c ∈ toks, c ∈ symbols) (at' : At line ps ts) :
    peek line toks ps = .ok (ahead toks ts, Shell.skipSpace line ps) := by
  have skipped := at'.skipSpace
  rw [peek]
  rcases skipSpace_cases at'.le with last | ⟨c, rest, drop, noSpace⟩
  · rw [← skipped.lex_eq, last, charAt_end]
    simp [lex, ahead]
  · rw [← skipped.lex_eq, charAt_eq drop, drop, ahead_lex noSpace areSymbols]
    by_cases mem : c ∈ toks
    · have nonzero : c ≠ 0#8 := by
        intro zero
        exact absurd (areSymbols c mem) (by rw [zero]; decide)
      simp [nonzero]
    · simp [mem]

/-! ## `gettoken` -/

theorem ofByte_code (isSymbol : c ∈ symbols) : (Symbol.ofByte c).code = c := by
  revert c
  decide

theorem lex_ne_nil (noSpace : isSpace c = false) (pos : Nat) : lex pos (c :: rest) ≠ [] := by
  rw [lex, if_neg (by simp [noSpace])]
  split
  · simp
  · split <;> simp

/-- In front of no token there is only whitespace. -/
theorem At.skipSpace_nil (at' : At line ps []) : Shell.skipSpace line ps = line.length := by
  rcases skipSpace_cases at'.le with last | ⟨c, rest, drop, noSpace⟩
  · exact last
  · have none := at'.skipSpace.lex_eq
    rw [drop] at none
    exact absurd none (lex_ne_nil noSpace _)

theorem At.gettoken_nil (at' : At line ps []) :
    ∃ span, Runs (gettoken line) ps (0, span) line.length := by
  have stays : Shell.skipSpace line line.length = line.length := by
    rw [skipSpace_eq, drop_length, takeWhile_nil, length_nil, Nat.add_zero]
  simp [Runs, gettoken, at'.skipSpace_nil, tokenAt, charAt_end, stays]

theorem mem_symbols_iff : c ∈ symbols ↔ c ∈ bytes "|();&<" ∨ c = ascii '>' := by
  revert c
  decide

variable {q : Nat}

theorem head_of_charAt {d : Byte} (drop : line.drop q = c :: rest) (next : charAt line (q + 1) = d)
    (nonzero : d ≠ 0) : ∃ last, rest = d :: last := by
  have tail := drop_succ drop
  cases rest with
  | nil =>
    have short := drop_eq_nil_iff.mp tail
    rw [charAt, getD_eq_getElem?_getD, getElem?_eq_none short] at next
    exact absurd next.symm nonzero
  | cons e last =>
    rw [charAt_eq tail] at next
    exact ⟨last, by rw [next]⟩

/-- The switch of `gettoken` recognises the token that begins at the character. -/
theorem tokenAt_spec (drop : line.drop q = c :: rest) (noSpace : isSpace c = false)
    (nonzero : c ≠ 0) :
    ∃ t eq, tokenAt line q = (t.code, eq) ∧ eq ≤ line.length ∧
      lex q (c :: rest) = t :: lex eq (line.drop eq) ∧ ∀ w, t = .word w → w = ⟨q, eq⟩ := by
  have inside := lt_of_drop drop
  rw [lex, if_neg (by simp [noSpace])]
  by_cases word : isWord c = true
  · -- the loop runs through the characters that `takeWhile` takes
    have noSymbol : c ∉ symbols := fun mem => by
      rw [isWord_symbols mem] at word
      cases word
    have run : skipWord line q = q + 1 + (rest.takeWhile isWord).length := by
      rw [skipWord, scan_eq, drop, takeWhile_cons, if_pos word, length_cons]
      omega
    have short : (rest.takeWhile isWord).length ≤ rest.length := (takeWhile_sublist _).length_le
    have length := congrArg length drop
    rw [length_drop, length_cons] at length
    refine ⟨.word ⟨q, skipWord line q⟩, skipWord line q, ?_, by omega, ?_, ?_⟩
    · have single : c ∉ bytes "|();&<" := fun mem => noSymbol (mem_symbols_iff.mpr (.inl mem))
      have greater : c ≠ ascii '>' := fun same => noSymbol (by rw [same]; decide)
      simp only [tokenAt, charAt_eq drop, if_neg nonzero, if_neg single, if_neg greater]
      rfl
    · rw [if_pos word, run, ← drop_drop, drop_succ drop]
    · rintro w ⟨⟩
      rfl
  · have isSymbol := mem_symbols noSpace (Bool.eq_false_iff.mpr word)
    rw [if_neg word]
    by_cases single : c ∈ bytes "|();&<"
    · have other : c ≠ ascii '>' := fun same => absurd single (by rw [same]; decide)
      refine ⟨.symbol (.ofByte c), q + 1, ?_, inside, ?_, by simp⟩
      · simp only [tokenAt, charAt_eq drop, if_neg nonzero, if_pos single]
        rw [Token.code, ofByte_code isSymbol]
      · rw [if_neg (fun both => other both.1), drop_succ drop]
    have greater : c = ascii '>' := (mem_symbols_iff.mp isSymbol).resolve_left single
    simp only [tokenAt, charAt_eq drop, if_neg nonzero, if_neg single, if_pos greater]
    by_cases double : charAt line (q + 1) = ascii '>'
    · obtain ⟨last, next⟩ := head_of_charAt drop double (by decide)
      have next' := drop_succ drop
      rw [next] at next'
      refine ⟨.symbol .append, q + 2, by rw [if_pos double]; rfl, lt_of_drop next', ?_, by simp⟩
      rw [next, if_pos ⟨greater, rfl⟩, tail_cons, drop_succ next']
    refine ⟨.symbol (.ofByte c), q + 1, ?_, inside, ?_, by simp⟩
    · rw [if_neg double, Token.code, ofByte_code isSymbol]
    · rw [if_neg, drop_succ drop]
      rintro ⟨-, next⟩
      obtain ⟨last, rfl⟩ := head?_eq_some_iff.mp next
      exact double (charAt_eq (drop_succ drop))

/-- `gettoken` takes the next token. -/
theorem At.gettoken_cons {t : Token} (nulFree : 0 ∉ line) (at' : At line ps (t :: ts)) :
    ∃ span ps', Runs (gettoken line) ps (t.code, span) ps' ∧ At line ps' ts ∧
      ∀ w, t = .word w → w = span := by
  have skipped := at'.skipSpace
  rcases skipSpace_cases at'.le with last | ⟨c, rest, drop, noSpace⟩
  · have none := skipped.lex_eq
    rw [last, drop_length, lex] at none
    cases none
  · have nonzero : c ≠ 0 := by
      rintro rfl
      exact nulFree (mem_of_mem_drop (drop ▸ mem_cons_self))
    obtain ⟨t', eq, found, bound, tokens, word⟩ := tokenAt_spec drop noSpace nonzero
    have first := skipped.lex_eq
    rw [drop, tokens] at first
    obtain ⟨rfl, rest'⟩ := cons.inj first
    have after : At line eq ts := ⟨bound, rest'⟩
    refine ⟨⟨Shell.skipSpace line ps, eq⟩, Shell.skipSpace line eq, ?_, after.skipSpace, word⟩
    simp [Runs, gettoken, found]

end Tokens

end Xv6.Shell
