import Xv6.Shell.Core

/-!
# `grep`

A string is the list of its characters in front of the NUL, so that a pointer into a
string is a suffix of the list.
-/

namespace Xv6.Grep

open Shell (ascii)

/-- `matchstar(c, re, text)`, where `here` is `matchhere` at `re`. -/
def matchstar (c : Byte) (here : List Byte → Bool) : List Byte → Bool
  | [] => here []
  | t :: text => here (t :: text) || ((t = c || c = ascii '.') && matchstar c here text)

/-- The step of `matchhere` over one character, where `here` is `matchhere` behind it. -/
def matchone (c : Byte) (here : List Byte → Bool) : List Byte → Bool
  | [] => false
  | t :: text => (c = ascii '.' || c = t) && here text

/-- `matchhere`; the `*` that it looks for is at `re[1]`. -/
def matchhere : List Byte → List Byte → Bool
  | [], _ => true
  | [c], text => if c = ascii '$' then text.isEmpty else matchone c (matchhere []) text
  | c :: next :: re, text =>
    if next = ascii '*' then matchstar c (matchhere re) text
    else matchone c (matchhere (next :: re)) text

/-- The loop of `match` over the text. -/
def matchany (re : List Byte) : List Byte → Bool
  | [] => matchhere re []
  | t :: text => matchhere re (t :: text) || matchany re text

/-- `match`. -/
def matchRe (re text : List Byte) : Bool :=
  if re.head? = some (ascii '^') then matchhere re.tail text else matchany re text

end Xv6.Grep
