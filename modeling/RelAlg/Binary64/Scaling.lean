import RelAlg.Binary64.Rounding

/-!
# Scaling by powers of ten

A decimal with a significand of 64 bits can be read in double precision throughout: the significand
is rounded to a double, which is then multiplied or divided by a rounded power of ten.  Each step is
the nearest double, but their sequence may miss the double nearest to the decimal, which
`Binary64.ofDecimal?` finds by exact arithmetic.

* `Binary64.ofRatio`                 : the double nearest to a fraction;
* `Binary64.mul`, `Binary64.div`     : the product and the quotient of finite numbers;
* `Binary64.scale?`                  : a number times a power of ten;
* `Binary64.ofScaled?`               : a decimal, read in this way.
-/

namespace RelAlg

namespace Binary64

/-- The double nearest to ± num / den, a half going to the even neighbour; an infinity if that is
too large for a finite one. -/
def ofRatio (negative : Bool) (num den : Nat) : Binary64 :=
  if num = 0 then ofMagnitude negative 0
  else ofMagnitude negative (min (magnitudeOfRatio num den) 0x7FF0000000000000)

/-- The product of two finite numbers. -/
def mul (x y : Binary64) : Binary64 :=
  let q := x.exponent + y.exponent
  ofRatio (x.isNegative != y.isNegative) (x.significand * y.significand * Nat.pow 2 q.toNat)
    (Nat.pow 2 (-q).toNat)

/-- The quotient of a finite number by one that is not zero. -/
def div (x y : Binary64) : Binary64 :=
  let q := x.exponent - y.exponent
  ofRatio (x.isNegative != y.isNegative) (x.significand * Nat.pow 2 q.toNat)
    (y.significand * Nat.pow 2 (-q).toNat)

/-- The double nearest to 10 ^ k. -/
def tenPow (k : Nat) : Binary64 := ofRatio false (Nat.pow 10 k) 1

/-- The number x · 10 ^ e, `none` if it is too large for a finite one.  The powers of ten up to 308
are at hand.  A smaller number than these reach is divided by 10 ^ 308 until they reach it or
nothing is left of it. -/
def scale? (x : Binary64) (e : Int) : Option Binary64 :=
  if e.natAbs ≤ 308 then
    if 0 ≤ e then
      let y := x.mul (tenPow e.natAbs)
      if y.isFinite then some y else none
    else some (x.div (tenPow e.natAbs))
  else if x.isZero then some x
  else if 0 ≤ e then none
  else scale? (x.div (tenPow 308)) (e + 308)
termination_by e.natAbs
decreasing_by omega

/-- The decimal ± n · 10 ^ e, rounded at each step. -/
def ofScaled? (negative : Bool) (n : Nat) (e : Int) : Option Binary64 :=
  (ofRatio negative n 1).scale? e

end Binary64

end RelAlg
