import RelAlg.Binary64

/-!
# Rounding a decimal to double precision

`Binary64.ofDecimal?` gives the double nearest to ± n · 10 ^ e, a half going to the even neighbour,
by exact integer arithmetic.  The magnitude bits of a double grow with its value, so one formula
serves normal and subnormal results: on the grid of step 2 ^ q the result with significand `m` has
magnitude bits (q + 1074) · 2 ^ 52 + m, also when rounding carries `m` up to the next power of two.
-/

namespace RelAlg

namespace Binary64

/-- The integer nearest to `num / den`, a half going to the even neighbour. -/
def nearestEven (num den : Nat) : Nat :=
  let quotient := num / den
  let rest := num % den
  if 2 * rest < den then quotient
  else if den < 2 * rest then quotient + 1
  else quotient + quotient % 2

/-- The exponent `q` of the grid on which `num / den` has a 53-bit significand, not below
the subnormal grid. -/
def gridExponent (num den : Nat) : Int :=
  let guess : Int := (Nat.log2 num : Int) - (Nat.log2 den : Int)
  let reached : Bool :=
    if 0 ≤ guess then den * Nat.pow 2 guess.toNat ≤ num else den ≤ num * Nat.pow 2 (-guess).toNat
  max (if reached then guess - 52 else guess - 53) (-1074)

/-- Magnitude bits of the double nearest to `num / den`; 2047 · 2 ^ 52 or more stands for
overflow. -/
def magnitudeOfRatio (num den : Nat) : Nat :=
  let q := gridExponent num den
  let m := if 0 ≤ q then nearestEven num (den * Nat.pow 2 q.toNat)
    else nearestEven (num * Nat.pow 2 (-q).toNat) den
  (q + 1074).toNat * 0x10000000000000 + m

/-- Decimal digits needed for `n`, never too few. -/
def digitBound (n : Nat) : Nat := Nat.log2 n * 302 / 1000 + 2

/-- Magnitude bits of the double nearest to n · 10 ^ e, `none` if it is too large.  Exponents that
are decided by their size alone never reach the exact computation. -/
def magnitudeOfDecimal? (n : Nat) (e : Int) : Option Nat :=
  if n = 0 then some 0
  else if e > 310 then none
  else if e + digitBound n < -330 then some 0
  else
    let bits := if 0 ≤ e then magnitudeOfRatio (n * Nat.pow 10 e.toNat) 1
      else magnitudeOfRatio n (Nat.pow 10 (-e).toNat)
    if bits < 0x7FF0000000000000 then some bits else none

/-- The double nearest to ± n · 10 ^ e, `none` if it is too large for a finite one. -/
def ofDecimal? (negative : Bool) (n : Nat) (e : Int) : Option Binary64 :=
  (magnitudeOfDecimal? n e).map (ofMagnitude negative)

end Binary64

end RelAlg
