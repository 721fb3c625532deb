import Mathlib.Data.List.Basic
import Xv6.Machine.Block
import Xv6.Program.Core

/-!
# The parser of the shell

`parsecmd` of `sh.c` reads a command line by recursive descent and returns a tree
whose strings are spans of the line, from `q` up to `eq`; `nulterminate` then stores
a NUL at the end of every span, in place.

The line is a list of characters and a pointer into it is an offset; behind the last
character stands the NUL that ends the line.  A parser is a program over the offset
`*ps`.  The loops and the recursion take fuel; running out of it is a failure of its
own, so that termination is something to be proved.  `malloc` always succeeds.
-/

namespace Xv6.Shell

/-- The code of an ASCII character. -/
def ascii (c : Char) : Byte := BitVec.ofNat 8 c.toNat

/-- A string constant. -/
def bytes (s : String) : List Byte := s.toList.map ascii

/-- `whitespace`. -/
def whitespace : List Byte := bytes " \t\r\n\x0b"

/-- `symbols`. -/
def symbols : List Byte := bytes "<|>&;()"

/-- `MAXARGS`. -/
def maxargs : Nat := 10

/-- `O_RDONLY`. -/
def oRdonly : Nat := 0x000

/-- `O_WRONLY|O_CREATE`. -/
def oWronlyCreate : Nat := 0x201

/-- A counted string: the offsets `q` and `eq`. -/
structure Span where
  q : Nat
  eq : Nat
  deriving DecidableEq, Repr

/-- The command tree. -/
inductive Cmd where
  | exec (argv : List Span)
  | redir (cmd : Cmd) (file : Span) (mode fd : Nat)
  | pipe (left right : Cmd)
  | list (left right : Cmd)
  | back (cmd : Cmd)
  deriving DecidableEq, Repr

/-- Store to `argv` and `eargv` of the `execcmd` at the bottom of its redirections. -/
def Cmd.addArg : Cmd → Span → Cmd
  | .exec argv, span => .exec (argv ++ [span])
  | .redir cmd file mode fd, span => .redir (cmd.addArg span) file mode fd
  | cmd, _ => cmd

/-- Why the parser does not return: a call of `panic`, or too little fuel. -/
inductive Failure where
  | panic (message : String)
  | fuel
  deriving DecidableEq, Repr

/-- A parser works on the offset `*ps`. -/
abbrev Parser (α : Type) := Prog Nat Failure α

open Prog

/-- The character at an offset, with the NUL behind the line. -/
def charAt (line : List Byte) (s : Nat) : Byte := line.getD s 0

/-- `while(s < es && test(*s)) s++`, with at most `fuel` iterations. -/
def scan (test : Byte → Bool) (line : List Byte) : Nat → Nat → Nat
  | 0, s => s
  | fuel + 1, s =>
    if s < line.length ∧ test (charAt line s) = true then scan test line fuel (s + 1) else s

/-- `strchr(whitespace, c)`. -/
def isSpace (c : Byte) : Bool := whitespace.contains c

/-- `!strchr(whitespace, c) && !strchr(symbols, c)`. -/
def isWord (c : Byte) : Bool := !whitespace.contains c && !symbols.contains c

/-- The loop that skips whitespace. -/
def skipSpace (line : List Byte) (s : Nat) : Nat := scan isSpace line (line.length - s) s

/-- The loop that runs through a word. -/
def skipWord (line : List Byte) (s : Nat) : Nat := scan isWord line (line.length - s) s

/-- The switch of `gettoken`: the return value and the end of the token that starts at
`s`. -/
def tokenAt (line : List Byte) (s : Nat) : Byte × Nat :=
  let c := charAt line s
  if c = 0 then (0, s)
  else if c ∈ bytes "|();&<" then (c, s + 1)
  else if c = ascii '>' then
    if charAt line (s + 1) = ascii '>' then (ascii '+', s + 2) else (c, s + 1)
  else (ascii 'a', skipWord line s)

/-- `gettoken`: the return value and the span of the token. -/
def gettoken (line : List Byte) : Parser (Byte × Span) := fun ps =>
  let q := skipSpace line ps
  let (ret, eq) := tokenAt line q
  .ok ((ret, ⟨q, eq⟩), skipSpace line eq)

/-- `peek`. -/
def peek (line toks : List Byte) : Parser Bool := fun ps =>
  let s := skipSpace line ps
  .ok (charAt line s ≠ 0 && toks.contains (charAt line s), s)

/-- `redircmd` with the mode and the descriptor that belong to a token. -/
def redirect (cmd : Cmd) (tok : Byte) (file : Span) : Cmd :=
  if tok = ascii '<' then .redir cmd file oRdonly 0
  else if tok = ascii '>' then .redir cmd file oWronlyCreate 1
  else if tok = ascii '+' then .redir cmd file oWronlyCreate 1
  else cmd

/-- `parseredirs`. -/
def parseredirs (line : List Byte) : Nat → Cmd → Parser Cmd
  | 0, _ => stop .fuel
  | fuel + 1, cmd => do
      let more ← peek line (bytes "<>")
      if more then
        let (tok, _) ← gettoken line
        let (kind, file) ← gettoken line
        if kind ≠ ascii 'a' then stop (.panic "missing file for redirection")
        else parseredirs line fuel (redirect cmd tok file)
      else pure cmd

/-- The loop of `parseexec` over the arguments; `cmd` is the command with its
redirections so far. -/
def parseargs (line : List Byte) : Nat → Nat → Cmd → Parser Cmd
  | 0, _, _ => stop .fuel
  | fuel + 1, argc, cmd => do
      let finished ← peek line (bytes "|)&;")
      if finished then pure cmd
      else
        let (tok, word) ← gettoken line
        if tok = 0 then pure cmd
        else if tok ≠ ascii 'a' then stop (.panic "syntax")
        else if maxargs ≤ argc + 1 then stop (.panic "too many args")
        else
          let cmd ← parseredirs line fuel (cmd.addArg word)
          parseargs line fuel (argc + 1) cmd

/-- The loop of `parseline` over the ampersands. -/
def parsebacks (line : List Byte) : Nat → Cmd → Parser Cmd
  | 0, _ => stop .fuel
  | fuel + 1, cmd => do
      let more ← peek line (bytes "&")
      if more then
        let _ ← gettoken line
        parsebacks line fuel (.back cmd)
      else pure cmd

mutual

/-- `parseline`. -/
def parseline (line : List Byte) : Nat → Parser Cmd
  | 0 => stop .fuel
  | fuel + 1 => do
      let first ← parsepipe line fuel
      let cmd ← parsebacks line fuel first
      let more ← peek line (bytes ";")
      if more then
        let _ ← gettoken line
        let rest ← parseline line fuel
        pure (.list cmd rest)
      else pure cmd

/-- `parsepipe`. -/
def parsepipe (line : List Byte) : Nat → Parser Cmd
  | 0 => stop .fuel
  | fuel + 1 => do
      let cmd ← parseexec line fuel
      let more ← peek line (bytes "|")
      if more then
        let _ ← gettoken line
        let rest ← parsepipe line fuel
        pure (.pipe cmd rest)
      else pure cmd

/-- `parseexec`. -/
def parseexec (line : List Byte) : Nat → Parser Cmd
  | 0 => stop .fuel
  | fuel + 1 => do
      let block ← peek line (bytes "(")
      if block then parseblock line fuel
      else
        let cmd ← parseredirs line fuel (.exec [])
        parseargs line fuel 0 cmd

/-- `parseblock`. -/
def parseblock (line : List Byte) : Nat → Parser Cmd
  | 0 => stop .fuel
  | fuel + 1 => do
      let opened ← peek line (bytes "(")
      if opened = false then stop (.panic "parseblock")
      else
        let _ ← gettoken line
        let cmd ← parseline line fuel
        let closed ← peek line (bytes ")")
        if closed = false then stop (.panic "syntax - missing )")
        else
          let _ ← gettoken line
          parseredirs line fuel cmd

end

/-- `nulterminate`: the memory of the line afterwards. -/
def nulterminate : Cmd → List Byte → List Byte
  | .exec argv, memory => argv.foldl (fun memory span => memory.set span.eq 0) memory
  | .redir cmd file _ _, memory => (nulterminate cmd memory).set file.eq 0
  | .pipe left right, memory => nulterminate right (nulterminate left memory)
  | .list left right, memory => nulterminate right (nulterminate left memory)
  | .back cmd, memory => nulterminate cmd memory

/-- `parsecmd`: the tree, and the memory of the line with its NUL afterwards. -/
def parsecmd (fuel : Nat) (line : List Byte) : Except Failure (Cmd × List Byte) :=
  match parseline line fuel 0 with
  | .error failure => .error failure
  | .ok (cmd, ps) =>
    if skipSpace line ps ≠ line.length then .error (.panic "syntax")
    else .ok (cmd, nulterminate cmd (line ++ [0]))

/-- The string at an offset of the memory. -/
def stringAt (memory : List Byte) (q : Nat) : List Byte :=
  (memory.drop q).takeWhile fun c => c ≠ 0

/-- The strings of a tree. -/
def Cmd.spans : Cmd → List Span
  | .exec argv => argv
  | .redir cmd file _ _ => cmd.spans ++ [file]
  | .pipe left right | .list left right => left.spans ++ right.spans
  | .back cmd => cmd.spans

end Xv6.Shell
