import RelAlg.Binary64.Rounding
import RelAlg.Document.Basic
import RelAlg.Numeral

/-!
# The meaning of plain YAML scalars

A plain scalar stands for null, a boolean, a whole number, a float or, failing all that, a string.

* `Scalar.whole?`   : whole numbers, in decimal or with one of the marks `0x`, `0o`, `0b`;
* `Scalar.float?`   : finite floats, infinities and NaN;
* `Scalar.resolve?` : the value, `none` for a whole number that is too large.
-/

namespace RelAlg

namespace Yaml

namespace Scalar

def isNull (s : String) : Bool := ["~", "null", "Null", "NULL"].contains s

def boolean? (s : String) : Option Bool :=
  if ["true", "True", "TRUE"].contains s then some true
  else if ["false", "False", "FALSE"].contains s then some false
  else none

/-- More than one digit with a zero in front, which makes the scalar a string. -/
def hasLeadingZero (cs : List Char) : Bool :=
  let digits := match cs with
    | '+' :: rest | '-' :: rest => rest
    | cs => cs
  1 < digits.length && digits.head? == some '0' && digits.all Char.isDigit

/-- A run of digits of a base, which is not empty. -/
def digits? (base : Nat) (cs : List Char) : Option Nat :=
  if cs.isEmpty then none else Numeral.valueInBase? base cs

/-- The magnitude of a whole number. -/
def magnitude? : List Char → Option Nat
  | '0' :: 'x' :: rest => digits? 16 rest
  | '0' :: 'o' :: rest => digits? 8 rest
  | '0' :: 'b' :: rest => digits? 2 rest
  | cs => digits? 10 cs

/-- A whole number with an optional sign, as far as 128 bits reach. -/
def whole? (cs : List Char) : Option Int :=
  if hasLeadingZero cs then none
  else
    match cs with
    | '-' :: rest => do
      let n ← magnitude? rest
      if n ≤ Nat.pow 2 127 then some (-(n : Int)) else none
    | '+' :: rest => do
      let n ← magnitude? rest
      if n < Nat.pow 2 128 then some n else none
    | rest => do
      let n ← magnitude? rest
      if n < Nat.pow 2 128 then some n else none

/-- A float in decimal notation, if it is not too large. -/
def decimal? (cs : List Char) : Option Binary64 := do
  let (negative, cs) := match cs with
    | '-' :: rest => (true, rest)
    | '+' :: rest => (false, rest)
    | rest => (false, rest)
  let whole := cs.takeWhile Char.isDigit
  let (fraction, rest) := match cs.dropWhile Char.isDigit with
    | '.' :: rest => (rest.takeWhile Char.isDigit, rest.dropWhile Char.isDigit)
    | rest => ([], rest)
  guard (!whole.isEmpty || !fraction.isEmpty)
  let e : Int ← match rest with
    | [] => some 0
    | e :: rest => do
      guard (e == 'e' || e == 'E')
      let (negative, digits) := match rest with
        | '-' :: rest => (true, rest)
        | '+' :: rest => (false, rest)
        | rest => (false, rest)
      guard (!digits.isEmpty && digits.all Char.isDigit)
      let n : Int := Numeral.value digits
      some (if negative then -n else n)
  Binary64.ofDecimal? negative (Numeral.value (whole ++ fraction)) (e - fraction.length)

def float? (s : String) : Option Binary64 :=
  if [".inf", ".Inf", ".INF", "+.inf", "+.Inf", "+.INF"].contains s then
    some (Binary64.infinity false)
  else if ["-.inf", "-.Inf", "-.INF"].contains s then some (Binary64.infinity true)
  else if [".nan", ".NaN", ".NAN"].contains s then some Binary64.nan
  else decimal? s.toList

/-- The value of the whole number `n` that is written as `s`, if it is in range. -/
def wholeDocument? (s : String) (n : Int) : Option Document :=
  if n = 0 ∧ s.toList.head? = some '-' then some .minusZero
  else if -0x8000000000000000 ≤ n ∧ n < 0x10000000000000000 then some (.integer n)
  else none

/-- The value of a plain scalar. -/
def resolve? (s : String) : Option Document :=
  if s.isEmpty || isNull s then some .null
  else
    match boolean? s with
    | some b => some (.boolean b)
    | none =>
      match whole? s.toList with
      | some n => wholeDocument? s n
      | none =>
        if hasLeadingZero s.toList then some (.string s)
        else
          match float? s with
          | some x => some (.float x)
          | none => some (.string s)

end Scalar

end Yaml

end RelAlg
