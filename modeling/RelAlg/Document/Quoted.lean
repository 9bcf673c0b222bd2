import RelAlg.Numeral

/-!
# Quoted strings

The text of a string in a document: between quotes, with the quote, the backslash and the control
characters below U+0020 escaped, and everything else as it is.

* `Quoted.escape`: one character;
* `Quoted.text`  : a whole string with its quotes.
-/

namespace RelAlg

namespace Quoted

/-- A character inside quotes. -/
def escape (c : Char) : List Char :=
  if c = '"' then ['\\', '"']
  else if c = '\\' then ['\\', '\\']
  else if c = '\x08' then ['\\', 'b']
  else if c = '\t' then ['\\', 't']
  else if c = '\n' then ['\\', 'n']
  else if c = '\x0c' then ['\\', 'f']
  else if c = '\r' then ['\\', 'r']
  else if c.toNat < 32 then
    ['\\', 'u', '0', '0', Numeral.hexChar (c.toNat / 16), Numeral.hexChar (c.toNat % 16)]
  else [c]

/-- The characters of a string inside quotes. -/
def body (cs : List Char) : List Char := cs.flatMap escape

/-- A string in quotes. -/
def text (s : String) : List Char := '"' :: (body s.toList ++ ['"'])

end Quoted

end RelAlg
