import Xv6.Shell.Grammar

/-!
# The parser accepts the grammar

Soundness and termination together: with fuel for the tokens in front of the offset, a
parser either reports an error or returns the tree of a derivation.  Completeness is
the converse, for tokens that end where the derivation ends: each derivation is
followed by a token that stops the loops of the parser.
-/

namespace Xv6.Shell

open Prog List Cmd

variable {line : List Byte} {ps : Nat} {ts : List Token}

/-- An error that the parser reports, as opposed to running out of fuel. -/
def Reported (failure : Failure) : Prop := failure ≠ .fuel

/-- A parser that returns a derivation of the relation, or reports an error. -/
def Sound (line : List Byte) (relation : List Token → Cmd → List Token → Prop)
    (parser : Parser Cmd) (ts : List Token) : Prop :=
  ∀ ps, At line ps ts → Ensures Reported parser ps fun cmd ps' =>
    ∃ rest, relation ts cmd rest ∧ At line ps' rest

/-! ## Steps -/

variable {α : Type} {allowed : Failure → Prop} {post : α → Nat → Prop}

theorem ensures_of_runs {prog : Parser α} {value : α} {target : Nat}
    (ran : Runs prog ps value target) (holds : post value target) :
    Ensures allowed prog ps post := by
  unfold Ensures
  rw [ran]
  exact holds

theorem At.ensures_peek {toks : List Byte} {next : Bool → Parser α} (at' : At line ps ts)
    (areSymbols : ∀ c ∈ toks, c ∈ symbols)
    (continues : ∀ ps', At line ps' ts → Ensures allowed (next (ahead toks ts)) ps' post) :
    Ensures allowed (peek line toks >>= next) ps post := by
  rw [ensures_bind]
  exact ensures_of_runs (at'.peek_eq areSymbols) (continues _ at'.skipSpace)

theorem At.ensures_gettoken {t : Token} {next : Byte × Span → Parser α}
    (at' : At line ps (t :: ts)) (nulFree : 0 ∉ line)
    (continues : ∀ span ps', At line ps' ts → (∀ w, t = .word w → w = span) →
      Ensures allowed (next (t.code, span)) ps' post) :
    Ensures allowed (gettoken line >>= next) ps post := by
  obtain ⟨span, ps', ran, after, word⟩ := at'.gettoken_cons nulFree
  rw [ensures_bind]
  exact ensures_of_runs ran (continues span ps' after word)

theorem At.ensures_gettoken_nil {next : Byte × Span → Parser α} (at' : At line ps [])
    (continues : ∀ span ps', At line ps' [] → Ensures allowed (next (0, span)) ps' post) :
    Ensures allowed (gettoken line >>= next) ps post := by
  obtain ⟨span, ran⟩ := at'.gettoken_nil
  rw [ensures_bind]
  refine ensures_of_runs ran (continues span _ ⟨Nat.le_refl _, ?_⟩)
  rw [drop_length, lex]

theorem ahead_eq_true_iff {toks : List Byte} :
    ahead toks ts = true ↔ ∃ s rest, ts = .symbol s :: rest ∧ s.first ∈ toks := by
  cases ts with
  | nil => simp [ahead]
  | cons t rest =>
    cases t with
    | symbol s => simp [ahead]
    | word span => simp [ahead]

theorem ahead_symbol {toks : List Byte} {s : Symbol}
    (only : ∀ other : Symbol, other.first ∈ toks → other = s) (more : ahead toks ts = true) :
    ∃ rest, ts = .symbol s :: rest := by
  obtain ⟨other, rest, rfl, mem⟩ := ahead_eq_true_iff.mp more
  exact ⟨rest, by rw [only other mem]⟩

theorem code_eq_word_iff {t : Token} : t.code = ascii 'a' ↔ ∃ span, t = .word span := by
  cases t with
  | symbol s => cases s <;> simp [] <;> decide
  | word span => simp [Token.code]

theorem Token.code_ne_zero (t : Token) : t.code ≠ 0 := by
  cases t with
  | symbol s => cases s <;> decide
  | word span => exact (by decide : ascii 'a' ≠ 0)

theorem Symbol.redirects {s : Symbol} (isRedir : s.first ∈ bytes "<>") :
    ∃ direction : Direction, s = direction.symbol := by
  cases s with
  | input => exact ⟨.input, rfl⟩
  | output => exact ⟨.output, rfl⟩
  | append => exact ⟨.append, rfl⟩
  | bar | ampersand | semicolon | opened | closed => exact absurd isRedir (by decide)

/-! ## Soundness -/

section Soundness

variable (nulFree : 0 ∉ line)
include nulFree

theorem parseredirs_sound {fuel : Nat} {cmd : Cmd} (enough : ts.length < fuel) :
    Sound line (fun ts cmd' rest => ∃ redirs, Redirs ts redirs rest ∧ cmd' = cmd.under redirs)
      (parseredirs line fuel cmd) ts := by
  intro ps start
  induction fuel generalizing ps ts cmd with
  | zero => omega
  | succ fuel ih =>
    rw [parseredirs]
    refine start.ensures_peek (by decide) fun ps peeked => ?_
    by_cases more : ahead (bytes "<>") ts = true
    · obtain ⟨s, us, rfl, isRedir⟩ := ahead_eq_true_iff.mp more
      obtain ⟨direction, rfl⟩ := Symbol.redirects isRedir
      rw [if_pos more]
      refine peeked.ensures_gettoken nulFree fun _ ps taken _ => ?_
      cases us with
      | nil =>
        refine taken.ensures_gettoken_nil fun _ ps _ => ?_
        exact Failure.noConfusion
      | cons t us =>
        refine taken.ensures_gettoken nulFree fun span ps named isSpan => ?_
        dsimp only
        by_cases word : t.code = ascii 'a'
        · obtain ⟨file, rfl⟩ := code_eq_word_iff.mp word
          obtain rfl := isSpan file rfl
          rw [Token.code, redirect_symbol]
          have fewer : us.length < fuel := by
            simp only [length_cons] at enough
            omega
          refine (ih fewer _ named).mono ?_
          rintro cmd' ps' - ⟨rest, ⟨redirs, derived, rfl⟩, after⟩
          exact ⟨rest, ⟨(direction, file) :: redirs, derived.cons, rfl⟩, after⟩
        · rw [if_pos word]
          exact Failure.noConfusion
    · rw [if_neg more]
      exact ⟨ts, ⟨[], .nil, rfl⟩, peeked⟩

/-- The loop finished the arguments, behind the words and redirections that were read. -/
theorem parseargs_sound {fuel : Nat} {words : List Span} {before : List (Direction × Span)}
    (few : words.length < maxargs) (enough : ts.length < fuel) :
    Sound line (fun ts cmd' rest => ∃ more after, Words ts more after rest ∧
        (words ++ more).length < maxargs ∧
        cmd' = (exec (words ++ more)).under (before ++ after))
      (parseargs line fuel words.length ((exec words).under before)) ts := by
  intro ps start
  induction fuel generalizing ps ts words before with
  | zero => omega
  | succ fuel ih =>
    have ended : ∀ {ps rest}, At line ps rest → ∃ more after, Words rest more after rest ∧
        (words ++ more).length < maxargs ∧
        (exec words).under before = (exec (words ++ more)).under (before ++ after) :=
      fun _ => ⟨[], [], .nil, by simpa using few, by simp⟩
    rw [parseargs]
    refine start.ensures_peek (by decide) fun ps peeked => ?_
    by_cases finished : ahead (bytes "|)&;") ts = true
    · rw [if_pos finished]
      exact ⟨ts, ended peeked, peeked⟩
    rw [if_neg finished]
    cases ts with
    | nil =>
      refine peeked.ensures_gettoken_nil fun _ ps taken => ?_
      exact ⟨[], ended taken, taken⟩
    | cons t us =>
      refine peeked.ensures_gettoken nulFree fun span ps taken isSpan => ?_
      dsimp only
      rw [if_neg t.code_ne_zero]
      by_cases isWord : t.code = ascii 'a'
      · obtain ⟨word, rfl⟩ := code_eq_word_iff.mp isWord
        obtain rfl := isSpan word rfl
        rw [if_neg (not_not_intro isWord)]
        by_cases many : maxargs ≤ words.length + 1
        · rw [if_pos many]
          exact Failure.noConfusion
        rw [if_neg many, addArg_under, ensures_bind]
        have fewer : us.length < fuel := by
          simp only [length_cons] at enough
          omega
        refine (parseredirs_sound nulFree fewer _ taken).mono ?_
        rintro _ ps' - ⟨vs, ⟨redirs, derived, rfl⟩, after⟩
        have shorter := derived.suffix.length_le
        have longer : (words ++ [word]).length < maxargs := by
          simp only [length_append, length_singleton]
          omega
        have counted : words.length + 1 = (words ++ [word]).length := by simp
        rw [← under_append, counted]
        refine (ih longer (by omega) ps' after).mono ?_
        rintro _ ps' - ⟨rest, ⟨more, others, derived', count, rfl⟩, after'⟩
        refine ⟨rest, ⟨word :: more, redirs ++ others, .cons derived derived', ?_, ?_⟩, after'⟩
        · simpa using count
        · simp
      · rw [if_pos isWord]
        exact Failure.noConfusion

theorem parsebacks_sound {fuel : Nat} {cmd : Cmd} (enough : ts.length < fuel) :
    Sound line (fun ts cmd' rest => ∃ count, Ampersands ts count rest ∧
        cmd' = back^[count] cmd) (parsebacks line fuel cmd) ts := by
  intro ps start
  induction fuel generalizing ps ts cmd with
  | zero => omega
  | succ fuel ih =>
    rw [parsebacks]
    refine start.ensures_peek (by decide) fun ps peeked => ?_
    by_cases more : ahead (bytes "&") ts = true
    · obtain ⟨us, rfl⟩ := ahead_symbol (s := .ampersand) (by decide) more
      refine peeked.ensures_gettoken nulFree fun _ ps taken _ => ?_
      have fewer : us.length < fuel := by
        simp only [length_cons] at enough
        omega
      refine (ih fewer _ taken).mono ?_
      rintro _ ps' - ⟨rest, ⟨count, derived, rfl⟩, after⟩
      exact ⟨rest, ⟨count + 1, derived.cons, rfl⟩, after⟩
    · rw [if_neg more]
      exact ⟨ts, ⟨0, .nil, rfl⟩, peeked⟩

/-- Every function of the recursion is sound with this fuel. -/
structure AllSound (line : List Byte) (fuel : Nat) : Prop where
  ofLine : ∀ ts, 4 * ts.length + 4 ≤ fuel → Sound line Line (parseline line fuel) ts
  ofPipe : ∀ ts, 4 * ts.length + 3 ≤ fuel → Sound line Pipe (parsepipe line fuel) ts
  ofExec : ∀ ts, 4 * ts.length + 2 ≤ fuel → Sound line Exec (parseexec line fuel) ts
  ofBlock : ∀ ts, 4 * ts.length + 1 ≤ fuel → Sound line Exec (parseblock line fuel) ts

variable {fuel : Nat}

section

variable (smaller : AllSound line fuel)
include smaller

theorem parseline_sound (enough : 4 * ts.length + 4 ≤ fuel + 1) :
    Sound line Line (parseline line (fuel + 1)) ts := by
  intro ps start
  rw [parseline]
  refine (smaller.ofPipe ts (by omega) ps start).bind ?_
  rintro first ps ⟨us, piped, after⟩
  have shorter := piped.suffix.length_le
  refine (parsebacks_sound nulFree (by omega) ps after).bind ?_
  rintro _ ps ⟨vs, ⟨count, backs, rfl⟩, after⟩
  refine after.ensures_peek (by decide) fun ps peeked => ?_
  by_cases more : ahead (bytes ";") vs = true
  · obtain ⟨ws, rfl⟩ := ahead_symbol (s := .semicolon) (by decide) more
    have fewer := backs.suffix.length_le
    rw [length_cons] at fewer
    refine peeked.ensures_gettoken nulFree fun _ ps taken _ => ?_
    refine (smaller.ofLine ws (by omega) ps taken).bind ?_
    rintro cmds ps ⟨rest, derived, after⟩
    exact ⟨rest, .list piped backs derived, after⟩
  · rw [if_neg more]
    exact ⟨vs, .last piped backs, peeked⟩

theorem parsepipe_sound (enough : 4 * ts.length + 3 ≤ fuel + 1) :
    Sound line Pipe (parsepipe line (fuel + 1)) ts := by
  intro ps start
  rw [parsepipe]
  refine (smaller.ofExec ts (by omega) ps start).bind ?_
  rintro first ps ⟨us, derived, after⟩
  refine after.ensures_peek (by decide) fun ps peeked => ?_
  by_cases more : ahead (bytes "|") us = true
  · obtain ⟨vs, rfl⟩ := ahead_symbol (s := .bar) (by decide) more
    have fewer := derived.suffix.length_le
    rw [length_cons] at fewer
    refine peeked.ensures_gettoken nulFree fun _ ps taken _ => ?_
    refine (smaller.ofPipe vs (by omega) ps taken).bind ?_
    rintro cmds ps ⟨rest, others, after⟩
    exact ⟨rest, .pipe derived others, after⟩
  · rw [if_neg more]
    exact ⟨us, .last derived, peeked⟩

theorem parseexec_sound (enough : 4 * ts.length + 2 ≤ fuel + 1) :
    Sound line Exec (parseexec line (fuel + 1)) ts := by
  intro ps start
  rw [parseexec]
  refine start.ensures_peek (by decide) fun ps peeked => ?_
  by_cases block : ahead (bytes "(") ts = true
  · rw [if_pos block]
    exact smaller.ofBlock ts (by omega) ps peeked
  rw [if_neg block]
  refine (parseredirs_sound nulFree (by omega) ps peeked).bind ?_
  rintro _ ps ⟨us, ⟨before, front, rfl⟩, after⟩
  have shorter := front.suffix.length_le
  have none : ([] : List Span).length < maxargs := by decide
  refine (parseargs_sound nulFree none (by omega) ps after).mono ?_
  rintro _ ps - ⟨rest, ⟨words, others, args, few, rfl⟩, after⟩
  exact ⟨rest, .simple front args few, after⟩

theorem parseblock_sound (enough : 4 * ts.length + 1 ≤ fuel + 1) :
    Sound line Exec (parseblock line (fuel + 1)) ts := by
  intro ps start
  rw [parseblock]
  refine start.ensures_peek (by decide) fun ps peeked => ?_
  by_cases opened : ahead (bytes "(") ts = false
  · rw [if_pos opened]
    exact Failure.noConfusion
  obtain ⟨us, rfl⟩ := ahead_symbol (s := .opened) (by decide) (Bool.eq_true_of_not_eq_false opened)
  rw [length_cons] at enough
  refine peeked.ensures_gettoken nulFree fun _ ps taken _ => ?_
  refine (smaller.ofLine us (by omega) ps taken).bind ?_
  rintro cmd ps ⟨vs, inner, after⟩
  have shorter := inner.suffix.length_le
  refine after.ensures_peek (by decide) fun ps peeked => ?_
  by_cases closed : ahead (bytes ")") vs = false
  · rw [if_pos closed]
    exact Failure.noConfusion
  obtain ⟨ws, rfl⟩ := ahead_symbol (s := .closed) (by decide) (Bool.eq_true_of_not_eq_false closed)
  rw [length_cons] at shorter
  refine peeked.ensures_gettoken nulFree fun _ ps taken _ => ?_
  refine (parseredirs_sound nulFree (by omega) ps taken).mono ?_
  rintro _ ps - ⟨rest, ⟨redirs, derived, rfl⟩, after⟩
  exact ⟨rest, .block inner derived, after⟩

end

theorem allSound (fuel : Nat) : AllSound line fuel := by
  induction fuel with
  | zero => constructor <;> (omega)
  | succ fuel smaller =>
    exact ⟨fun _ => parseline_sound nulFree smaller, fun _ => parsepipe_sound nulFree smaller,
      fun _ => parseexec_sound nulFree smaller, fun _ => parseblock_sound nulFree smaller⟩

end Soundness

/-! ## What follows a derivation -/

/-- The tokens end, or go on with one of the symbols. -/
def Follows (toks : List Byte) (rest : List Token) : Prop :=
  rest = [] ∨ ahead toks rest = true

section Follow

variable {toks other : List Byte} {us rest : List Token}

theorem Follows.not_ahead (follows : Follows toks rest)
    (disjoint : ∀ s : Symbol, s.first ∈ toks → s.first ∉ other) : ahead other rest = false := by
  rcases follows with rfl | more
  · rfl
  · obtain ⟨s, us, rfl, mem⟩ := ahead_eq_true_iff.mp more
    simpa [ahead] using disjoint s mem

theorem Follows.mono (follows : Follows toks rest)
    (subset : ∀ s : Symbol, s.first ∈ toks → s.first ∈ other) : Follows other rest := by
  rcases follows with rfl | more
  · exact .inl rfl
  · obtain ⟨s, us, rfl, mem⟩ := ahead_eq_true_iff.mp more
    exact .inr (by simpa [ahead] using subset s mem)

theorem Redirs.not_ahead {redirs} (derived : Redirs ts redirs rest)
    (apart : ∀ s : Symbol, s.first ∈ bytes "<>" → s.first ∉ toks)
    (ends : ahead toks rest = false) : ahead toks ts = false := by
  cases derived with
  | nil => exact ends
  | cons more =>
    rename_i direction file ts redirs
    have outside := apart direction.symbol (by cases direction <;> decide)
    simpa [ahead] using outside

theorem Words.not_ahead {words redirs} (derived : Words ts words redirs rest)
    (ends : ahead toks rest = false) : ahead toks ts = false := by
  cases derived with
  | nil => exact ends
  | cons => rfl

theorem Ampersands.follows {count} (derived : Ampersands ts count rest)
    (ends : Follows (bytes ")&;") rest) : Follows (bytes ")&;") ts := by
  cases derived with
  | nil => exact ends
  | cons => exact .inr (by simp only [ahead]; decide)

end Follow

/-! ## Completeness -/

/-- The parser returns the tree and stands in front of the rest. -/
def Complete (line : List Byte) (parser : Parser Cmd) (ts : List Token) (cmd : Cmd)
    (rest : List Token) : Prop :=
  ∀ ps, At line ps ts → Ensures (fun _ => False) parser ps fun cmd' ps' =>
    cmd' = cmd ∧ At line ps' rest

section Completeness

variable {rest : List Token} {fuel : Nat} (nulFree : 0 ∉ line)
include nulFree

theorem parseredirs_complete {redirs : List (Direction × Span)} {cmd : Cmd}
    (derived : Redirs ts redirs rest) (ends : ahead (bytes "<>") rest = false)
    (enough : ts.length < fuel) :
    Complete line (parseredirs line fuel cmd) ts (cmd.under redirs) rest := by
  intro ps start
  obtain ⟨fuel, rfl⟩ := Nat.exists_eq_add_one_of_ne_zero (Nat.ne_zero_of_lt enough)
  induction derived generalizing ps fuel cmd with
  | nil =>
    rw [parseredirs]
    refine start.ensures_peek (by decide) fun ps peeked => ?_
    rw [ends]
    exact ⟨rfl, peeked⟩
  | cons more ih =>
    rename_i direction file us redirs rest
    rw [parseredirs]
    refine start.ensures_peek (by decide) fun ps peeked => ?_
    have isRedir : ahead (bytes "<>") (.symbol direction.symbol :: .word file :: us) = true := by
      cases direction <;> rfl
    rw [if_pos isRedir]
    refine peeked.ensures_gettoken nulFree fun _ ps taken _ => ?_
    refine taken.ensures_gettoken nulFree fun span ps named isSpan => ?_
    obtain rfl := isSpan file rfl
    dsimp only [Token.code]
    rw [redirect_symbol]
    simp only [length_cons] at enough
    obtain ⟨fuel, rfl⟩ := Nat.exists_eq_add_one_of_ne_zero (by omega : fuel ≠ 0)
    exact ih ends ps named fuel (by omega)

theorem parseargs_complete (words : List Span) {more : List Span}
    {before after : List (Direction × Span)} (derived : Words ts more after rest)
    (ends : Follows (bytes "|)&;") rest)
    (few : (words ++ more).length < maxargs) (enough : ts.length < fuel) :
    Complete line (parseargs line fuel words.length ((exec words).under before)) ts
      ((exec (words ++ more)).under (before ++ after)) rest := by
  intro ps start
  obtain ⟨fuel, rfl⟩ := Nat.exists_eq_add_one_of_ne_zero (Nat.ne_zero_of_lt enough)
  induction derived generalizing ps fuel words before with
  | nil =>
    rw [parseargs]
    refine start.ensures_peek (by decide) fun ps peeked => ?_
    rw [append_nil, append_nil]
    rcases ends with rfl | finished
    · refine peeked.ensures_gettoken_nil fun _ ps taken => ?_
      exact ⟨rfl, taken⟩
    · rw [if_pos finished]
      exact ⟨rfl, peeked⟩
  | cons first others ih =>
    rename_i word us redirs vs more after rest
    rw [parseargs]
    refine start.ensures_peek (by decide) fun ps peeked => ?_
    refine peeked.ensures_gettoken nulFree fun span ps taken isSpan => ?_
    obtain rfl := isSpan word rfl
    have next : (words ++ [word] ++ more).length < maxargs := by simpa using few
    have room : ¬maxargs ≤ words.length + 1 := by
      simp only [length_append, length_singleton] at next
      omega
    dsimp only [Token.code]
    rw [if_neg (by decide), if_neg (by simp), if_neg room, addArg_under, ensures_bind]
    simp only [length_cons] at enough
    have shorter := first.suffix.length_le
    have noRedir : ahead (bytes "<>") vs = false := others.not_ahead (ends.not_ahead (by decide))
    refine (parseredirs_complete nulFree first noRedir (by omega) ps taken).mono ?_
    rintro _ ps - ⟨rfl, passed⟩
    obtain ⟨fuel, rfl⟩ := Nat.exists_eq_add_one_of_ne_zero (by omega : fuel ≠ 0)
    have counted : words.length + 1 = (words ++ [word]).length := by simp
    have assoc : words ++ word :: more = words ++ [word] ++ more := by simp
    rw [← under_append, counted, assoc, ← append_assoc before]
    exact ih (words ++ [word]) ends next ps passed fuel (by omega)

theorem parsebacks_complete {count : Nat} {cmd : Cmd} (derived : Ampersands ts count rest)
    (ends : ahead (bytes "&") rest = false) (enough : ts.length < fuel) :
    Complete line (parsebacks line fuel cmd) ts (back^[count] cmd) rest := by
  intro ps start
  obtain ⟨fuel, rfl⟩ := Nat.exists_eq_add_one_of_ne_zero (Nat.ne_zero_of_lt enough)
  induction derived generalizing ps fuel cmd with
  | nil =>
    rw [parsebacks]
    refine start.ensures_peek (by decide) fun ps peeked => ?_
    rw [ends]
    exact ⟨rfl, peeked⟩
  | cons more ih =>
    rw [parsebacks]
    refine start.ensures_peek (by decide) fun ps peeked => ?_
    refine peeked.ensures_gettoken nulFree fun _ ps taken _ => ?_
    simp only [length_cons] at enough
    obtain ⟨fuel, rfl⟩ := Nat.exists_eq_add_one_of_ne_zero (by omega : fuel ≠ 0)
    exact ih ends ps taken fuel (by omega)

mutual

theorem Line.complete {ts rest : List Token} {cmd : Cmd} {fuel : Nat} :
    Line ts cmd rest → Follows (bytes ")") rest → 4 * ts.length + 4 ≤ fuel →
      Complete line (parseline line fuel) ts cmd rest
  | .last first backs, ends, enough => by
      intro ps start
      obtain ⟨fuel, rfl⟩ := Nat.exists_eq_add_one_of_ne_zero (by omega : fuel ≠ 0)
      have shorter := first.suffix.length_le
      rw [parseline]
      refine (Pipe.complete first (backs.follows (ends.mono (by decide))) (by omega) ps
        start).bind ?_
      rintro _ ps ⟨rfl, piped⟩
      refine (parsebacks_complete nulFree backs (ends.not_ahead (by decide)) (by omega) ps
        piped).bind ?_
      rintro _ ps ⟨rfl, after⟩
      refine after.ensures_peek (by decide) fun ps peeked => ?_
      rw [ends.not_ahead (by decide)]
      exact ⟨rfl, peeked⟩
  | .list first backs more, ends, enough => by
      intro ps start
      obtain ⟨fuel, rfl⟩ := Nat.exists_eq_add_one_of_ne_zero (by omega : fuel ≠ 0)
      have shorter := first.suffix.length_le
      have fewer := backs.suffix.length_le
      rw [length_cons] at fewer
      rw [parseline]
      refine (Pipe.complete first (backs.follows (.inr rfl)) (by omega) ps start).bind ?_
      rintro _ ps ⟨rfl, piped⟩
      refine (parsebacks_complete nulFree backs rfl (by omega) ps piped).bind ?_
      rintro _ ps ⟨rfl, after⟩
      refine after.ensures_peek (by decide) fun ps peeked => ?_
      refine peeked.ensures_gettoken nulFree fun _ ps taken _ => ?_
      refine (Line.complete more ends (by omega) ps taken).bind ?_
      rintro _ ps ⟨rfl, last⟩
      exact ⟨rfl, last⟩

theorem Pipe.complete {ts rest : List Token} {cmd : Cmd} {fuel : Nat} :
    Pipe ts cmd rest → Follows (bytes ")&;") rest → 4 * ts.length + 3 ≤ fuel →
      Complete line (parsepipe line fuel) ts cmd rest
  | .last first, ends, enough => by
      intro ps start
      obtain ⟨fuel, rfl⟩ := Nat.exists_eq_add_one_of_ne_zero (by omega : fuel ≠ 0)
      rw [parsepipe]
      refine (Exec.complete first (ends.mono (by decide)) (by omega) ps start).bind ?_
      rintro _ ps ⟨rfl, after⟩
      refine after.ensures_peek (by decide) fun ps peeked => ?_
      rw [ends.not_ahead (by decide)]
      exact ⟨rfl, peeked⟩
  | .pipe first more, ends, enough => by
      intro ps start
      obtain ⟨fuel, rfl⟩ := Nat.exists_eq_add_one_of_ne_zero (by omega : fuel ≠ 0)
      have shorter := first.suffix.length_le
      rw [length_cons] at shorter
      rw [parsepipe]
      refine (Exec.complete first (.inr rfl) (by omega) ps start).bind ?_
      rintro _ ps ⟨rfl, after⟩
      refine after.ensures_peek (by decide) fun ps peeked => ?_
      refine peeked.ensures_gettoken nulFree fun _ ps taken _ => ?_
      refine (Pipe.complete more ends (by omega) ps taken).bind ?_
      rintro _ ps ⟨rfl, last⟩
      exact ⟨rfl, last⟩

theorem Exec.complete {ts rest : List Token} {cmd : Cmd} {fuel : Nat} :
    Exec ts cmd rest → Follows (bytes "|)&;") rest → 4 * ts.length + 2 ≤ fuel →
      Complete line (parseexec line fuel) ts cmd rest
  | .block inner after, ends, enough => by
      intro ps start
      obtain ⟨fuel, rfl⟩ := Nat.exists_eq_add_one_of_ne_zero (by omega : fuel ≠ 0)
      rw [length_cons] at enough
      obtain ⟨fuel, rfl⟩ := Nat.exists_eq_add_one_of_ne_zero (by omega : fuel ≠ 0)
      have shorter := inner.suffix.length_le
      rw [length_cons] at shorter
      rw [parseexec]
      refine start.ensures_peek (by decide) fun ps peeked => ?_
      change Ensures _ (parseblock line (fuel + 1)) _ _
      rw [parseblock]
      refine peeked.ensures_peek (by decide) fun ps peeked => ?_
      refine peeked.ensures_gettoken nulFree fun _ ps taken _ => ?_
      refine (Line.complete inner (.inr rfl) (by omega) ps taken).bind ?_
      rintro _ ps ⟨rfl, passed⟩
      refine passed.ensures_peek (by decide) fun ps peeked => ?_
      refine peeked.ensures_gettoken nulFree fun _ ps taken _ => ?_
      exact parseredirs_complete nulFree after (ends.not_ahead (by decide)) (by omega) ps taken
  | .simple front args few, ends, enough => by
      intro ps start
      obtain ⟨fuel, rfl⟩ := Nat.exists_eq_add_one_of_ne_zero (by omega : fuel ≠ 0)
      have shorter := front.suffix.length_le
      have noBlock : ahead (bytes "(") ts = false :=
        front.not_ahead (by decide) (args.not_ahead (ends.not_ahead (by decide)))
      have noRedir : ahead (bytes "<>") _ = false := args.not_ahead (ends.not_ahead (by decide))
      rw [parseexec]
      refine start.ensures_peek (by decide) fun ps peeked => ?_
      rw [noBlock]
      change Ensures _ (parseredirs line fuel (.exec []) >>= _) _ _
      refine (parseredirs_complete nulFree front noRedir (by omega) ps peeked).bind ?_
      rintro _ ps ⟨rfl, passed⟩
      exact parseargs_complete nulFree [] args ends few (by omega) ps passed

end

end Completeness

end Xv6.Shell
