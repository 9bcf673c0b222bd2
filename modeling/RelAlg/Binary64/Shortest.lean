import RelAlg.Binary64
import RelAlg.Numeral

/-!
# The shortest decimal that reads back

A finite nonzero double x = m · 2 ^ q owns the interval of reals that round to it: half a step on
each side, a quarter step below when `m` is the least normal significand, with the ends included iff
`m` is even.  `Binary64.shortest` looks on the decimal grids with 1, 2, … 17 significant digits for
a neighbour of x inside that interval.  The first grid with a hit wins, of two hits the nearer one;
an exact tie is settled by the caller.
-/

namespace RelAlg

/-- A positive decimal d₀.d₁d₂… · 10 ^ exponent. -/
structure Decimal where
  /-- The digits, as characters; the first is not zero and, beyond the first, neither
  is the last. -/
  digits : List Char
  /-- The decimal exponent of the first digit. -/
  exponent : Int
deriving DecidableEq

/-- Which of two equally near candidates is taken. -/
inductive Tie where
  | toEven
  | away
deriving DecidableEq

namespace Binary64

/-- The interval of reals that round to a double, and the double itself, over one common
denominator. -/
structure RoundingInterval where
  value : Nat
  lower : Nat
  upper : Nat
  denominator : Nat
  /-- Whether the two ends belong to the interval. -/
  closed : Bool

/-- The interval of a finite nonzero magnitude.  In quarter steps the value is 4m, the ends are
4m ± 2, or 4m − 1 below the least significand of a binade. -/
def roundingInterval (x : Binary64) : RoundingInterval :=
  let m := x.significand
  let step := Nat.pow 2 (x.exponent - 2).toNat
  { value := 4 * m * step
    lower := (if x.fraction = 0 ∧ 1 < x.biasedExponent then 4 * m - 1 else 4 * m - 2) * step
    upper := (4 * m + 2) * step
    denominator := Nat.pow 2 (2 - x.exponent).toNat
    closed := m % 2 == 0 }

/-- Whether a · 10 ^ k, as the fraction `a * up / (denominator * down)`, lies in the interval. -/
def RoundingInterval.contains (i : RoundingInterval) (num den : Nat) : Bool :=
  let c := num * i.denominator
  if i.closed then decide (i.lower * den ≤ c ∧ c ≤ i.upper * den)
  else decide (i.lower * den < c ∧ c < i.upper * den)

/-- The decimal exponent of `num / den`: 10 ^ k ≤ num / den < 10 ^ (k + 1). -/
def decimalExponent (num den : Nat) : Int :=
  let reaches (k : Int) : Bool :=
    if 0 ≤ k then den * Nat.pow 10 k.toNat ≤ num else den ≤ num * Nat.pow 10 (-k).toNat
  let guess : Int := ((Nat.log2 num : Int) - (Nat.log2 den : Int)) * 30103 / 100000
  if reaches (guess + 2) then guess + 2
  else if reaches (guess + 1) then guess + 1
  else if reaches guess then guess
  else guess - 1

/-- The neighbour on the grid of step 10 ^ k that lies in the interval and is nearest
to the value. -/
def RoundingInterval.candidate? (i : RoundingInterval) (tie : Tie) (k : Int) : Option Nat :=
  let up := Nat.pow 10 k.toNat
  let down := Nat.pow 10 (-k).toNat
  let below := i.value * down / (i.denominator * up)
  let rest := i.value * down % (i.denominator * up)
  let above := below + 1
  match i.contains (below * up) down, i.contains (above * up) down with
  | true, true =>
    if 2 * rest < i.denominator * up then some below
    else if i.denominator * up < 2 * rest then some above
    else match tie with
      | .toEven => some (if below % 2 = 0 then below else above)
      | .away => some above
  | true, false => some below
  | false, true => some above
  | false, false => none

/-- Drops the zeros at the end of a numeral, but keeps its first digit. -/
def dropTrailingZeros : List Char → List Char
  | [] => []
  | c :: rest => c :: (rest.reverse.dropWhile (· == '0')).reverse

/-- The shortest decimal that rounds to the finite nonzero magnitude of `x`, nearest to
it among those. -/
def shortest (tie : Tie) (x : Binary64) : Decimal :=
  let i := x.roundingInterval
  let top := decimalExponent i.value i.denominator
  let search : Option (Nat × Int) := (List.range 17).findSome? fun (n : Nat) =>
    let k := top - n
    (i.candidate? tie k).map (·, k)
  let (d, k) := search.getD (0, 0)
  let digits := Numeral.ofNat d
  { digits := dropTrailingZeros digits, exponent := k + (digits.length - 1 : Nat) }

end Binary64

end RelAlg
