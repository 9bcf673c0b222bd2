/-!
# Double-precision numbers as bit patterns

A float literal is kept as the 64 bits of its interchange encoding, so that a NaN payload and the
sign of a zero survive every operation and two notions of equality can be told apart:

* equality of values of type `Binary64` is equality of bits;
* `Binary64.numericEq` is the numeric comparison: a NaN differs from everything, the
  two zeros agree.

`Binary64.significand` and `Binary64.exponent` decode a finite value as ± m · 2 ^ q.
-/

namespace RelAlg

/-- A double-precision number, given by its bits. -/
structure Binary64 where
  /-- Sign bit, eleven exponent bits, fifty-two fraction bits. -/
  bits : UInt64
deriving DecidableEq, Inhabited

namespace Binary64

/-- The sign bit. -/
def isNegative (x : Binary64) : Bool := x.bits.toNat / 0x8000000000000000 == 1

/-- The eleven exponent bits. -/
def biasedExponent (x : Binary64) : Nat := x.bits.toNat / 0x10000000000000 % 0x800

/-- The fifty-two fraction bits. -/
def fraction (x : Binary64) : Nat := x.bits.toNat % 0x10000000000000

/-- Neither an infinity nor a NaN. -/
def isFinite (x : Binary64) : Bool := x.biasedExponent != 2047

def isNaN (x : Binary64) : Bool := x.biasedExponent == 2047 && x.fraction != 0

/-- One of the two zeros. -/
def isZero (x : Binary64) : Bool := x.biasedExponent == 0 && x.fraction == 0

/-- The integer `m` of a finite value ± m · 2 ^ q. -/
def significand (x : Binary64) : Nat :=
  if x.biasedExponent = 0 then x.fraction else x.fraction + 0x10000000000000

/-- The exponent `q` of a finite value ± m · 2 ^ q. -/
def exponent (x : Binary64) : Int :=
  if x.biasedExponent = 0 then -1074 else (x.biasedExponent : Int) - 1075

/-- Comparison as numbers: a NaN equals nothing, not even itself, and 0.0 equals -0.0. -/
def numericEq (x y : Binary64) : Bool :=
  !x.isNaN && !y.isNaN && (x == y || (x.isZero && y.isZero))

/-- The value with the given sign and the given 63 magnitude bits. -/
def ofMagnitude (negative : Bool) (magnitude : Nat) : Binary64 :=
  ⟨UInt64.ofNat ((if negative then 0x8000000000000000 else 0) + magnitude)⟩

def infinity (negative : Bool) : Binary64 := ofMagnitude negative 0x7FF0000000000000

def nan : Binary64 := ofMagnitude false 0x7FF8000000000000

end Binary64

end RelAlg
