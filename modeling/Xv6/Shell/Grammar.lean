import Mathlib.Logic.Function.Iterate
import Xv6.Shell.Lexer

/-!
# The grammar of the shell

    line  ::= pipe '&'* [';' line]
    pipe  ::= exec ['|' pipe]
    exec  ::= '(' line ')' redir* | redir* (word redir*)*
    redir ::= ('<' | '>' | '>>') word

with fewer than `MAXARGS` words in a simple command.  A derivation relates the tokens
from which it begins, the tree that it stands for, and the tokens that follow it.
-/

namespace Xv6.Shell

open List

/-- The kinds of redirection. -/
inductive Direction where
  | input
  | output
  | append
  deriving DecidableEq, Repr

namespace Direction

/-- The symbol of a redirection. -/
def symbol : Direction → Symbol
  | .input => .input
  | .output => .output
  | .append => .append

/-- How the file is opened. -/
def mode : Direction → Nat
  | .input => oRdonly
  | .output | .append => oWronlyCreate

/-- The descriptor that is redirected. -/
def fd : Direction → Nat
  | .input => 0
  | .output | .append => 1

end Direction

/-- A command under redirections, the first of them innermost. -/
def Cmd.under (cmd : Cmd) (redirs : List (Direction × Span)) : Cmd :=
  redirs.foldl (fun cmd redir => .redir cmd redir.2 redir.1.mode redir.1.fd) cmd

/-- `redir*`. -/
inductive Redirs : List Token → List (Direction × Span) → List Token → Prop
  | nil {ts} : Redirs ts [] ts
  | cons {direction file ts redirs rest} (more : Redirs ts redirs rest) :
      Redirs (.symbol (Direction.symbol direction) :: .word file :: ts)
        ((direction, file) :: redirs) rest

/-- `(word redir*)*`. -/
inductive Words : List Token → List Span → List (Direction × Span) → List Token → Prop
  | nil {ts} : Words ts [] [] ts
  | cons {word ts redirs us words others rest} (first : Redirs ts redirs us)
      (more : Words us words others rest) :
      Words (.word word :: ts) (word :: words) (redirs ++ others) rest

/-- `'&'*`. -/
inductive Ampersands : List Token → Nat → List Token → Prop
  | nil {ts} : Ampersands ts 0 ts
  | cons {ts count rest} (more : Ampersands ts count rest) :
      Ampersands (.symbol .ampersand :: ts) (count + 1) rest

mutual

/-- `line`. -/
inductive Line : List Token → Cmd → List Token → Prop
  | last {ts cmd us count rest} (first : Pipe ts cmd us) (backs : Ampersands us count rest) :
      Line ts (Cmd.back^[count] cmd) rest
  | list {ts cmd us count vs cmds rest} (first : Pipe ts cmd us)
      (backs : Ampersands us count (.symbol .semicolon :: vs)) (more : Line vs cmds rest) :
      Line ts (.list (Cmd.back^[count] cmd) cmds) rest

/-- `pipe`. -/
inductive Pipe : List Token → Cmd → List Token → Prop
  | last {ts cmd rest} (first : Exec ts cmd rest) : Pipe ts cmd rest
  | pipe {ts cmd us cmds rest} (first : Exec ts cmd (.symbol .bar :: us))
      (more : Pipe us cmds rest) : Pipe ts (.pipe cmd cmds) rest

/-- `exec`. -/
inductive Exec : List Token → Cmd → List Token → Prop
  | block {ts cmd us redirs rest} (inner : Line ts cmd (.symbol .closed :: us))
      (after : Redirs us redirs rest) : Exec (.symbol .opened :: ts) (cmd.under redirs) rest
  | simple {ts before us words after rest} (front : Redirs ts before us)
      (args : Words us words after rest) (few : words.length < maxargs) :
      Exec ts ((Cmd.exec words).under (before ++ after)) rest

end

/-- The tokens are derived as a line that stands for the tree. -/
def Derives (ts : List Token) (cmd : Cmd) : Prop := Line ts cmd []

/-! ## Redirected commands -/

@[simp]
theorem Cmd.under_nil (cmd : Cmd) : cmd.under [] = cmd := rfl

theorem Cmd.under_cons (cmd : Cmd) (direction : Direction) (file : Span)
    (redirs : List (Direction × Span)) :
    cmd.under ((direction, file) :: redirs) =
      (Cmd.redir cmd file direction.mode direction.fd).under redirs := rfl

theorem Cmd.under_append (cmd : Cmd) (redirs others : List (Direction × Span)) :
    cmd.under (redirs ++ others) = (cmd.under redirs).under others :=
  foldl_append

/-- An argument passes the redirections down to the command. -/
theorem Cmd.addArg_under (cmd : Cmd) (redirs : List (Direction × Span)) (word : Span) :
    (cmd.under redirs).addArg word = (cmd.addArg word).under redirs := by
  induction redirs generalizing cmd with
  | nil => rfl
  | cons redir redirs ih => exact ih (.redir cmd redir.2 redir.1.mode redir.1.fd)

theorem redirect_symbol (cmd : Cmd) (direction : Direction) (file : Span) :
    redirect cmd direction.symbol.code file = .redir cmd file direction.mode direction.fd := by
  cases direction <;> rfl

/-! ## What remains -/

theorem Redirs.suffix {ts redirs rest} (derived : Redirs ts redirs rest) : rest <:+ ts := by
  induction derived with
  | nil => exact suffix_refl _
  | cons _ ih => exact (ih.trans (suffix_cons _ _)).trans (suffix_cons _ _)

theorem Words.suffix {ts words redirs rest} (derived : Words ts words redirs rest) :
    rest <:+ ts := by
  induction derived with
  | nil => exact suffix_refl _
  | cons first _ ih => exact (ih.trans first.suffix).trans (suffix_cons _ _)

theorem Ampersands.suffix {ts count rest} (derived : Ampersands ts count rest) : rest <:+ ts := by
  induction derived with
  | nil => exact suffix_refl _
  | cons _ ih => exact ih.trans (suffix_cons _ _)

mutual

theorem Line.suffix {ts cmd rest} : Line ts cmd rest → rest <:+ ts
  | .last first backs => backs.suffix.trans (Pipe.suffix first)
  | .list first backs more =>
    (((Line.suffix more).trans (suffix_cons _ _)).trans backs.suffix).trans (Pipe.suffix first)

theorem Pipe.suffix {ts cmd rest} : Pipe ts cmd rest → rest <:+ ts
  | .last first => Exec.suffix first
  | .pipe first more =>
    ((Pipe.suffix more).trans (suffix_cons _ _)).trans (Exec.suffix first)

theorem Exec.suffix {ts cmd rest} : Exec ts cmd rest → rest <:+ ts
  | .block inner after =>
    ((after.suffix.trans (suffix_cons _ _)).trans (Line.suffix inner)).trans (suffix_cons _ _)
  | .simple front args _ => args.suffix.trans front.suffix

end

end Xv6.Shell
