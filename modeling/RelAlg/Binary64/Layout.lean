import RelAlg.Binary64.Shortest

/-!
# The text of a double

Two outputs write floats: JSON documents and s-expression text.  Both show the shortest digits that
read back; a `Layout` says where positional notation ends and how an exponent is signed.

* `Layout.document`  : JSON documents, where a value that is not finite is written `null`;
* `Layout.expression`: s-expression text, where such a value is `inf`, `-inf` or `NaN`.
-/

namespace RelAlg

/-- The decisions left open by the shortest digits. -/
structure Layout where
  /-- The least decimal exponent written positionally; the greatest is 15. -/
  leastPlain : Int
  /-- What stands before a positive exponent. -/
  plus : List Char
  /-- Which of two equally near shortest decimals is written. -/
  tie : Tie
  nan : List Char
  infinity : List Char
  negativeInfinity : List Char

namespace Layout

/-- JSON: positional from 10 ^ -5 up to, but not including, 10 ^ 16; `1e+16`; not
finite is `null`. -/
def document : Layout :=
  ⟨-5, ['+'], .toEven, "null".toList, "null".toList, "null".toList⟩

/-- S-expression text: positional from 10 ^ -4 up to, but not including, 10 ^ 16; `1e16`. -/
def expression : Layout :=
  ⟨-4, [], .away, "NaN".toList, "inf".toList, "-inf".toList⟩

/-- Digits with a point somewhere, and at least one digit on each side of it. -/
def positional (d : Decimal) : List Char :=
  if d.exponent < 0 then
    '0' :: '.' :: (List.replicate (-d.exponent - 1).toNat '0' ++ d.digits)
  else
    let whole := d.exponent.toNat + 1
    if d.digits.length ≤ whole then
      d.digits ++ List.replicate (whole - d.digits.length) '0' ++ ['.', '0']
    else d.digits.take whole ++ '.' :: d.digits.drop whole

/-- One digit, the others behind a point, and the exponent. -/
def scientific (l : Layout) (d : Decimal) : List Char :=
  let mantissa := match d.digits with
    | [] => []
    | [c] => [c]
    | c :: rest => c :: '.' :: rest
  mantissa ++ 'e' :: ((if d.exponent < 0 then [] else l.plus) ++ Numeral.ofInt d.exponent)

/-- The text of a finite magnitude. -/
def magnitude (l : Layout) (x : Binary64) : List Char :=
  if x.isZero then ['0', '.', '0']
  else
    let d := x.shortest l.tie
    if l.leastPlain ≤ d.exponent ∧ d.exponent < 16 then positional d else l.scientific d

/-- The text of any double. -/
def text (l : Layout) (x : Binary64) : List Char :=
  if x.isNaN then l.nan
  else if x.isFinite then
    if x.isNegative then '-' :: l.magnitude x else l.magnitude x
  else if x.isNegative then l.negativeInfinity
  else l.infinity

end Layout

end RelAlg
