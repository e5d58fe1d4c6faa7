import Treewalk.Text.Printable

/-!
# Quoted text

`Quoted.quote` writes a text between double quotes so that every character of it can be seen. What
is not printable is written by its code point; an apostrophe needs no escape.
-/

namespace Treewalk.Quoted

/-- The letter that stands behind a backslash for a character, if it has one. -/
def letter? (c : Char) : Option Char :=
  if c = '"' ∨ c = '\\' then some c
  else if c = '\n' then some 'n'
  else if c = '\r' then some 'r'
  else if c = '\t' then some 't'
  else if c.toNat = 0 then some '0'
  else none

/-- A character between the quotes. -/
def escape (c : Char) : List Char :=
  match letter? c with
  | some letter => ['\\', letter]
  | none =>
    if isPrintable c then [c]
    else '\\' :: 'u' :: '\x7b' :: Nat.toDigits 16 c.toNat ++ ['\x7d']

/-- The text between quotes. -/
def quote (s : String) : String := String.ofList ('"' :: s.toList.flatMap escape ++ ['"'])

end Treewalk.Quoted
