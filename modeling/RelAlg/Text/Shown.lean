import RelAlg.Numeral
import RelAlg.Text.Hidden

/-!
# Text shown in an error

A string found in a wrong place is quoted in the error: the quote, the backslash and the common
control characters have short escapes, a hidden character is shown as its code point in hexadecimal.

* `Shown.text`: the quoted string.
-/

namespace RelAlg

namespace Shown

/-- The hexadecimal numeral of `n`, in lower case. -/
def hexadecimal (n : Nat) : List Char :=
  if n < 16 then [Numeral.hexChar n] else hexadecimal (n / 16) ++ [Numeral.hexChar (n % 16)]

/-- A character between quotes. -/
def escape (c : Char) : List Char :=
  if c = '"' then ['\\', '"']
  else if c = '\\' then ['\\', '\\']
  else if c = '\x00' then ['\\', '0']
  else if c = '\t' then ['\\', 't']
  else if c = '\n' then ['\\', 'n']
  else if c = '\r' then ['\\', 'r']
  else if isHidden c then '\\' :: 'u' :: '{' :: (hexadecimal c.toNat ++ ['}'])
  else [c]

/-- The string in quotes. -/
def text (s : String) : String :=
  String.ofList ('"' :: (s.toList.flatMap escape ++ ['"']))

end Shown

end RelAlg
