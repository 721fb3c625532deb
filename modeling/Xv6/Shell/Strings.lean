import Mathlib.Data.List.TakeWhile
import Xv6.Shell.Correctness

/-!
# The strings of a command

`nulterminate` stores its NULs into the line itself.  A NUL goes where a word ends,
which is never inside a word, since words are maximal; so every string of the tree is
the text of its token.
-/

namespace Xv6.Shell

open Prog List Nat Cmd

variable {buf : List Byte}

/-- The text of a token. -/
def Span.text (span : Span) (buf : List Byte) : List Byte :=
  (buf.drop span.q).take (span.eq - span.q)

/-- A maximal run of characters that are neither whitespace nor symbols. -/
structure Maximal (buf : List Byte) (span : Span) : Prop where
  le : span.q ≤ span.eq
  bound : span.eq ≤ buf.length
  inside : ∀ i, span.q ≤ i → i < span.eq → ∃ c, buf[i]? = some c ∧ isWord c = true
  ends : ∀ c, buf[span.eq]? = some c → isWord c = false

theorem getElem?_takeWhile (test : Byte → Bool) (text : List Byte) {i : Nat}
    (inside : i < (text.takeWhile test).length) : ∃ c, text[i]? = some c ∧ test c = true := by
  have same := (List.takeWhile_prefix test).getElem inside
  refine ⟨(text.takeWhile test)[i], ?_, ?_⟩
  · rw [same]
    exact getElem?_eq_getElem _
  · exact mem_takeWhile_imp (getElem_mem inside)

variable {pos : Nat}

/-- The run that begins at a character of a word is maximal. -/
theorem maximal_run {c : Byte} {rest : List Byte} (drop : buf.drop pos = c :: rest)
    (word : isWord c = true) : Maximal buf ⟨pos, pos + 1 + (rest.takeWhile isWord).length⟩ := by
  have run : ((buf.drop pos).takeWhile isWord).length =
      1 + (rest.takeWhile isWord).length := by
    rw [drop, takeWhile_cons, if_pos word, length_cons, Nat.add_comm]
  have place : pos + 1 + (rest.takeWhile isWord).length =
      pos + ((buf.drop pos).takeWhile isWord).length := by omega
  rw [place]
  have short : ((buf.drop pos).takeWhile isWord).length ≤ (buf.drop pos).length :=
    (takeWhile_sublist _).length_le
  rw [length_drop] at short
  refine ⟨le_add_right _ _, by dsimp only; omega, ?_, ?_⟩
  · intro i low high
    obtain ⟨d, found, passes⟩ := getElem?_takeWhile isWord (buf.drop pos) (i := i - pos)
      (by dsimp only at low high; omega)
    rw [getElem?_drop, Nat.add_sub_cancel' low] at found
    exact ⟨d, found, passes⟩
  · intro d found
    rw [← getElem?_drop] at found
    rcases takeWhile_cases isWord (buf.drop pos) with all | ⟨e, last, next, stops⟩
    · rw [all, getElem?_length] at found
      cases found
    · have first : ((buf.drop pos).drop ((buf.drop pos).takeWhile isWord).length)[0]? =
          some e := by rw [next]; rfl
      rw [getElem?_drop, Nat.add_zero, found, Option.some.injEq] at first
      exact first ▸ stops

variable {span : Span}

theorem lex_maximal {text : List Byte} (drop : buf.drop pos = text)
    (mem : .word span ∈ lex pos text) : Maximal buf span := by
  fun_induction lex pos text with
  | case1 => cases mem
  | case2 pos c rest space ih => exact ih (drop_succ drop) mem
  | case3 pos c rest noSpace word run ih =>
    rcases mem_cons.mp mem with here | later
    · cases here
      exact maximal_run drop word
    · exact ih (by rw [← drop_drop, drop_succ drop]) later
  | case4 pos c rest noSpace noWord double ih =>
    rcases mem_cons.mp mem with here | later
    · cases here
    · refine ih ?_ later
      rw [← drop_one, ← drop_succ drop, drop_drop]
  | case5 pos c rest noSpace noWord single ih =>
    rcases mem_cons.mp mem with here | later
    · cases here
    · exact ih (drop_succ drop) later

/-! ## The strings of a derivation -/

theorem Cmd.spans_under (cmd : Cmd) (redirs : List (Direction × Span)) :
    (cmd.under redirs).spans = cmd.spans ++ redirs.map Prod.snd := by
  induction redirs generalizing cmd with
  | nil => simp
  | cons redir redirs ih =>
    rw [under_cons, ih, spans, map_cons, append_assoc, singleton_append]

theorem Cmd.spans_back (cmd : Cmd) (count : Nat) : (back^[count] cmd).spans = cmd.spans := by
  induction count generalizing cmd with
  | zero => rfl
  | succ count ih => exact ih (.back cmd)

theorem Redirs.word_mem {ts redirs rest} (derived : Redirs ts redirs rest)
    (mem : span ∈ redirs.map Prod.snd) : .word span ∈ ts := by
  induction derived with
  | nil => cases mem
  | cons more ih =>
    rcases mem_cons.mp mem with rfl | later
    · exact mem_cons_of_mem _ mem_cons_self
    · exact mem_cons_of_mem _ (mem_cons_of_mem _ (ih later))

theorem Words.word_mem {ts words redirs rest} (derived : Words ts words redirs rest)
    (mem : span ∈ words ++ redirs.map Prod.snd) : .word span ∈ ts := by
  induction derived with
  | nil => cases mem
  | cons first more ih =>
    rw [cons_append, map_append, mem_cons, mem_append, mem_append] at mem
    rcases mem with rfl | word | file | later
    · exact mem_cons_self
    · exact mem_cons_of_mem _ (first.suffix.subset (ih (mem_append_left _ word)))
    · exact mem_cons_of_mem _ (first.word_mem file)
    · exact mem_cons_of_mem _ (first.suffix.subset (ih (mem_append_right _ later)))

mutual

theorem Line.word_mem {ts cmd rest} :
    Line ts cmd rest → span ∈ cmd.spans → .word span ∈ ts
  | .last first _, mem => by
      rw [spans_back] at mem
      exact Pipe.word_mem first mem
  | .list first backs more, mem => by
      rw [spans, spans_back, mem_append] at mem
      rcases mem with left | right
      · exact Pipe.word_mem first left
      · exact (backs.suffix.trans first.suffix).subset
          (mem_cons_of_mem _ (Line.word_mem more right))

theorem Pipe.word_mem {ts cmd rest} :
    Pipe ts cmd rest → span ∈ cmd.spans → .word span ∈ ts
  | .last first, mem => Exec.word_mem first mem
  | .pipe first more, mem => by
      rw [spans, mem_append] at mem
      rcases mem with left | right
      · exact Exec.word_mem first left
      · exact first.suffix.subset (mem_cons_of_mem _ (Pipe.word_mem more right))

theorem Exec.word_mem {ts cmd rest} :
    Exec ts cmd rest → span ∈ cmd.spans → .word span ∈ ts
  | .block inner after, mem => by
      rw [spans_under, mem_append] at mem
      refine mem_cons_of_mem _ ?_
      rcases mem with body | file
      · exact Line.word_mem inner body
      · exact inner.suffix.subset (mem_cons_of_mem _ (after.word_mem file))
  | .simple front args _, mem => by
      rw [spans_under, spans, map_append, mem_append, mem_append] at mem
      rcases mem with word | file | later
      · exact front.suffix.subset (args.word_mem (mem_append_left _ word))
      · exact front.word_mem file
      · exact front.suffix.subset (args.word_mem (mem_append_right _ later))

end

/-! ## `nulterminate` -/

/-- Store a NUL at the end of every span. -/
def terminate (spans : List Span) (memory : List Byte) : List Byte :=
  spans.foldl (fun memory span => memory.set span.eq 0) memory

theorem nulterminate_eq (cmd : Cmd) (memory : List Byte) :
    nulterminate cmd memory = terminate cmd.spans memory := by
  induction cmd generalizing memory with
  | exec argv => rfl
  | redir cmd file mode fd ih =>
    rw [nulterminate, ih, spans, terminate, terminate, foldl_append]
    rfl
  | pipe left right leftIh rightIh | list left right leftIh rightIh =>
    rw [nulterminate, leftIh, rightIh, spans, terminate, terminate, terminate, foldl_append]
  | back cmd ih => exact ih memory

variable {spans : List Span} {i : Nat}

theorem terminate_other (other : ∀ span ∈ spans, span.eq ≠ i) (memory : List Byte) :
    (terminate spans memory)[i]? = memory[i]? := by
  induction spans generalizing memory with
  | nil => rfl
  | cons span spans ih =>
    change (terminate spans (memory.set span.eq 0))[i]? = _
    rw [ih fun later mem => other later (mem_cons_of_mem _ mem),
      getElem?_set_ne (other span mem_cons_self)]

theorem terminate_end (ends : ∃ span ∈ spans, span.eq = i) {memory : List Byte}
    (inside : i < memory.length) : (terminate spans memory)[i]? = some 0 := by
  induction spans generalizing memory with
  | nil => simp at ends
  | cons first spans ih =>
    change (terminate spans (memory.set first.eq 0))[i]? = _
    by_cases again : ∃ span ∈ spans, span.eq = i
    · exact ih again (by rwa [length_set])
    have other : ∀ span ∈ spans, span.eq ≠ i := fun span mem same => again ⟨span, mem, same⟩
    obtain ⟨span, mem, rfl⟩ := ends
    rcases mem_cons.mp mem with rfl | later
    · rw [terminate_other other, getElem?_set_self inside]
    · exact absurd rfl (other span later)

theorem takeWhile_eq_take {test : Byte → Bool} {text : List Byte} {n : Nat} {last : Byte}
    (passes : ∀ i < n, ∃ c, text[i]? = some c ∧ test c = true) (found : text[n]? = some last)
    (stops : test last = false) : text.takeWhile test = text.take n := by
  induction n generalizing text with
  | zero =>
    obtain ⟨rest, rfl⟩ := head?_eq_some_iff.mp (head?_eq_getElem?.trans found)
    rw [takeWhile_cons, if_neg (by simp [stops]), take_zero]
  | succ n ih =>
    obtain ⟨c, first, pass⟩ := passes 0 (succ_pos n)
    obtain ⟨rest, rfl⟩ := head?_eq_some_iff.mp (head?_eq_getElem?.trans first)
    rw [takeWhile_cons, if_pos pass]
    exact congrArg (c :: ·) (ih (fun i below => passes (i + 1) (succ_lt_succ below)) found)

/-- No NUL of `nulterminate` falls inside a word. -/
theorem stringAt_nulterminate {cmd : Cmd} {span : Span} (nulFree : 0 ∉ buf)
    (words : ∀ span ∈ cmd.spans, Maximal buf span) (mem : span ∈ cmd.spans) :
    stringAt (nulterminate cmd (buf ++ [0])) span.q = span.text buf := by
  have maximal := words span mem
  have kept i (low : span.q ≤ i) (high : i < span.eq) : (nulterminate cmd (buf ++ [0]))[i]? =
      buf[i]? := by
    have bound := maximal.bound
    rw [nulterminate_eq, terminate_other, getElem?_append_left (by omega)]
    rintro other memOther rfl
    obtain ⟨c, found, word⟩ := maximal.inside _ low high
    rw [(words other memOther).ends c found] at word
    cases word
  have ended : (nulterminate cmd (buf ++ [0]))[span.eq]? = some 0 := by
    rw [nulterminate_eq]
    refine terminate_end ⟨span, mem, rfl⟩ ?_
    have bound := maximal.bound
    rw [length_append, length_singleton]
    omega
  have le := maximal.le
  have passes i (below : i < span.eq - span.q) :
      ∃ c, ((nulterminate cmd (buf ++ [0])).drop span.q)[i]? = some c ∧ decide (c ≠ 0) = true := by
    obtain ⟨c, found, -⟩ := maximal.inside (span.q + i) (by omega) (by omega)
    rw [getElem?_drop, kept _ (by omega) (by omega)]
    refine ⟨c, found, decide_eq_true fun zero => nulFree ?_⟩
    rw [← zero]
    exact mem_of_getElem? found
  rw [← Nat.add_sub_cancel' le, ← getElem?_drop] at ended
  rw [stringAt, Span.text, takeWhile_eq_take passes ended rfl]
  refine ext_getElem? fun i => ?_
  by_cases below : i < span.eq - span.q
  · rw [getElem?_take_of_lt below, getElem?_take_of_lt below, getElem?_drop,
      getElem?_drop, kept _ (by omega) (by omega)]
  · rw [getElem?_take_eq_none (by omega), getElem?_take_eq_none (by omega)]

/-! ## The parser -/

theorem length_lex_le (pos : Nat) (text : List Byte) : (lex pos text).length ≤ text.length := by
  fun_induction lex pos text with
  | case1 => exact le_refl _
  | case2 pos c rest space ih => exact le_succ_of_le ih
  | case3 pos c rest noSpace word run ih =>
    rw [length_drop] at ih
    rw [length_cons, length_cons]
    omega
  | case4 pos c rest noSpace noWord double ih =>
    rw [length_tail] at ih
    rw [length_cons, length_cons]
    omega
  | case5 pos c rest noSpace noWord single ih => exact succ_le_succ ih

theorem at_start : At buf 0 (tokens buf) :=
  ⟨zero_le _, rfl⟩

theorem at_end_iff {ps : Nat} {ts : List Token} (here : At buf ps ts) :
    skipSpace buf ps = buf.length ↔ ts = [] := by
  constructor
  · intro last
    have none := here.skipSpace.lex_eq
    rw [last, drop_length, lex] at none
    exact none.symm
  · rintro rfl
    exact here.skipSpace_nil

/-- The fuel that suffices for a line. -/
def fuelFor (buf : List Byte) : Nat := 4 * buf.length + 4

section Parsecmd

variable {fuel : Nat} (nulFree : 0 ∉ buf) (enough : fuelFor buf ≤ fuel)
include nulFree enough

theorem parseline_ensures :
    Ensures Reported (parseline buf fuel) 0 fun cmd ps =>
      ∃ rest, Line (tokens buf) cmd rest ∧ At buf ps rest := by
  have short : (tokens buf).length ≤ buf.length := length_lex_le 0 buf
  unfold fuelFor at enough
  exact (allSound nulFree fuel).ofLine (tokens buf) (by omega) 0 at_start

theorem parsecmd_ne_fuel : parsecmd fuel buf ≠ .error .fuel := by
  have holds := parseline_ensures nulFree enough
  unfold Ensures at holds
  unfold parsecmd
  cases parsed : parseline buf fuel 0 with
  | error failure =>
    rw [parsed] at holds
    intro same
    exact holds (Except.error.inj same)
  | ok result =>
    dsimp only
    split <;> simp

theorem parsecmd_eq_ok_iff {cmd : Cmd} {memory : List Byte} :
    parsecmd fuel buf = .ok (cmd, memory) ↔
      Derives (tokens buf) cmd ∧ memory = nulterminate cmd (buf ++ [0]) := by
  constructor
  · intro returned
    have holds := parseline_ensures nulFree enough
    unfold Ensures at holds
    unfold parsecmd at returned
    cases parsed : parseline buf fuel 0 with
    | error failure =>
      rw [parsed] at returned
      cases returned
    | ok result =>
      obtain ⟨cmd', ps⟩ := result
      rw [parsed] at returned holds
      obtain ⟨rest, derived, after⟩ := holds
      by_cases last : skipSpace buf ps = buf.length
      · dsimp only at returned
        rw [if_neg (not_not_intro last)] at returned
        cases returned
        rw [(at_end_iff after).mp last] at derived
        exact ⟨derived, rfl⟩
      · dsimp only at returned
        rw [if_pos last] at returned
        cases returned
  · rintro ⟨derived, rfl⟩
    have short : (tokens buf).length ≤ buf.length := length_lex_le 0 buf
    unfold fuelFor at enough
    have ran := derived.complete nulFree (.inl rfl) (by omega : _ ≤ fuel) 0 at_start
    unfold Ensures at ran
    unfold parsecmd
    cases parsed : parseline buf fuel 0 with
    | error failure =>
      rw [parsed] at ran
      exact ran.elim
    | ok result =>
      rw [parsed] at ran
      obtain ⟨rfl, after⟩ := ran
      dsimp only
      rw [if_neg (not_not_intro ((at_end_iff after).mpr rfl))]

end Parsecmd

/-- On every line `parsecmd` either reports an error or returns; it returns a tree exactly
when the tokens of the line are derived as one, and the strings of the tree are then the
texts of their tokens. -/
theorem parsecmd_derives (buf : List Byte) (nulFree : 0 ∉ buf) (fuel : Nat)
    (enough : fuelFor buf ≤ fuel) :
    ((∃ message, parsecmd fuel buf = .error (.panic message)) ∨
      ∃ cmd memory, parsecmd fuel buf = .ok (cmd, memory)) ∧
    (∀ cmd, (∃ memory, parsecmd fuel buf = .ok (cmd, memory)) ↔ Derives (tokens buf) cmd) ∧
    ∀ cmd memory, parsecmd fuel buf = .ok (cmd, memory) → ∀ span ∈ cmd.spans,
      .word span ∈ tokens buf ∧ stringAt memory span.q = span.text buf := by
  refine ⟨?_, fun cmd => ?_, fun cmd memory returned span mem => ?_⟩
  · have reported := parsecmd_ne_fuel nulFree enough
    cases result : parsecmd fuel buf with
    | error failure =>
      cases failure with
      | panic message => exact .inl ⟨message, rfl⟩
      | fuel => exact absurd result reported
    | ok value => exact .inr ⟨value.1, value.2, rfl⟩
  · constructor
    · rintro ⟨memory, returned⟩
      exact ((parsecmd_eq_ok_iff nulFree enough).mp returned).1
    · intro derived
      exact ⟨_, (parsecmd_eq_ok_iff nulFree enough).mpr ⟨derived, rfl⟩⟩
  · obtain ⟨derived, rfl⟩ := (parsecmd_eq_ok_iff nulFree enough).mp returned
    have isWord span (mem : span ∈ cmd.spans) : .word span ∈ tokens buf := Line.word_mem derived mem
    have words : ∀ span ∈ cmd.spans, Maximal buf span :=
      fun span mem => lex_maximal List.drop_zero (isWord span mem)
    exact ⟨isWord span mem, stringAt_nulterminate nulFree words mem⟩

/-- A line with every construct of the grammar. -/
def sampleLine : List Byte := bytes "a b>c|(d;e&)<f&"

/-- The tree of the line. -/
def sampleCmd : Cmd :=
  .back (.pipe (.redir (.exec [⟨0, 1⟩, ⟨2, 3⟩]) ⟨4, 5⟩ oWronlyCreate 1)
    (.redir (.list (.exec [⟨7, 8⟩]) (.back (.exec [⟨9, 10⟩]))) ⟨13, 14⟩ oRdonly 0))

theorem parsecmd_derives_sampleLine :
    0 ∉ sampleLine ∧ Derives (tokens sampleLine) sampleCmd ∧
      ∃ memory, parsecmd (fuelFor sampleLine) sampleLine = .ok (sampleCmd, memory) ∧
        ∀ span ∈ sampleCmd.spans, stringAt memory span.q = span.text sampleLine := by
  have nulFree : 0 ∉ sampleLine := by decide +kernel
  obtain ⟨-, returns, strings⟩ :=
    parsecmd_derives sampleLine nulFree (fuelFor sampleLine) (Nat.le_refl _)
  obtain ⟨memory, returned⟩ :
      ∃ memory, parsecmd (fuelFor sampleLine) sampleLine = .ok (sampleCmd, memory) := by
    have tree : (parsecmd (fuelFor sampleLine) sampleLine).toOption.map Prod.fst =
        some sampleCmd := by decide +kernel
    cases result : parsecmd (fuelFor sampleLine) sampleLine with
    | error failure =>
      rw [result] at tree
      cases tree
    | ok value =>
      rw [result] at tree
      exact ⟨value.2, by rw [← Option.some.inj tree]⟩
  exact ⟨nulFree, (returns sampleCmd).mp ⟨memory, returned⟩, memory, returned,
    fun span mem => (strings sampleCmd memory returned span mem).2⟩

end Xv6.Shell
