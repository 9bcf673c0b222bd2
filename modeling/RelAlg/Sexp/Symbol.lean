/-!
# Symbols as text

A symbol is written bare unless the bare form would read as something else; then it stands between
bars, with bars and backslashes inside it escaped.

* `Symbol.readsAsNumber`: the spellings of floating-point numbers, `inf` and `nan` included;
* `Symbol.needsBars`    : when a bare name would be ambiguous;
* `Symbol.text`         : the written form.
-/

namespace RelAlg

namespace Symbol

/-- The Unicode property White_Space. -/
def isBlank (c : Char) : Bool :=
  let n := c.toNat
  (9 ≤ n && n ≤ 13) || n == 0x20 || n == 0x85 || n == 0xA0 || n == 0x1680
    || (0x2000 ≤ n && n ≤ 0x200A) || n == 0x2028 || n == 0x2029 || n == 0x202F || n == 0x205F
    || n == 0x3000

/-- The text without a sign at its front. -/
def dropSign : List Char → List Char
  | '+' :: rest | '-' :: rest => rest
  | cs => cs

/-- A run of at least one digit and nothing else. -/
def isDigits (cs : List Char) : Bool := !cs.isEmpty && cs.all Char.isDigit

/-- Nothing, or `e` or `E` with a whole number. -/
def isExponent : List Char → Bool
  | [] => true
  | c :: rest => (c == 'e' || c == 'E') && isDigits (dropSign rest)

/-- Digits, with a point before, among or after them, and possibly an exponent. -/
def isDecimal (cs : List Char) : Bool :=
  let whole := cs.takeWhile Char.isDigit
  match cs.dropWhile Char.isDigit with
  | '.' :: rest =>
    let fraction := rest.takeWhile Char.isDigit
    (!whole.isEmpty || !fraction.isEmpty) && isExponent (rest.dropWhile Char.isDigit)
  | rest => !whole.isEmpty && isExponent rest

/-- The names of values that are not finite, in any case. -/
def isNonFinite (cs : List Char) : Bool :=
  ["inf".toList, "infinity".toList, "nan".toList].contains (cs.map Char.toLower)

/-- The text spells a floating-point number. -/
def readsAsNumber (cs : List Char) : Bool :=
  let magnitude := dropSign cs
  isDecimal magnitude || isNonFinite magnitude

/-- A character that cannot stand in a bare symbol. -/
def isSpecial (c : Char) : Bool :=
  isBlank c || ['(', ')', '"', '|', '\\', ';', '\''].contains c

/-- The bare name would read as another atom, or as more than one. -/
def needsBars (name : List Char) : Bool :=
  name.isEmpty || name.head? == some '#'
    || ["nil".toList, "true".toList, "false".toList].contains name
    || readsAsNumber name || name.any isSpecial

/-- A character between bars. -/
def escape (c : Char) : List Char :=
  if c = '|' ∨ c = '\\' then ['\\', c] else [c]

/-- The written form of the symbol called `name`. -/
def text (name : String) : List Char :=
  let cs := name.toList
  if needsBars cs then '|' :: (cs.flatMap escape ++ ['|']) else cs

end Symbol

end RelAlg
