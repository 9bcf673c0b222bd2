import RelAlg.Binary64

/-!
# Literals

The scalar values of a tree: arguments of functions and values of tuples.

* `Literal`          : null, booleans, integers in two ranges, floats, strings, arrays;
* `Literal.ofUInt64` : a count is `integer` as long as it fits, `unsigned` only above;
* `Literal.numericEq`: comparison with floats compared as numbers.
-/

namespace RelAlg

inductive Literal where
  | null
  | boolean (b : Bool)
  | integer (n : Int64)
  /-- Meant for whole numbers above the range of `integer`. -/
  | unsigned (n : UInt64)
  | float (x : Binary64)
  | string (s : String)
  | array (items : List Literal)
deriving Inhabited

/-- One row of a materialized relation, in header order. -/
abbrev Tuple := List Literal

namespace Literal

/-- A count, kept as a signed integer while it fits. -/
def ofUInt64 (n : UInt64) : Literal :=
  if n.toNat < 0x8000000000000000 then .integer (Int64.ofInt n.toNat) else .unsigned n

/-- A whole number, if it lies in one of the two integer ranges. -/
def ofInt? (n : Int) : Option Literal :=
  if -0x8000000000000000 ≤ n ∧ n < 0x8000000000000000 then some (.integer (Int64.ofInt n))
  else if 0 ≤ n ∧ n < 0x10000000000000000 then some (.unsigned (UInt64.ofNat n.toNat))
  else none

mutual

/-- Equality in which floats compare as numbers. -/
def numericEq : Literal → Literal → Bool
  | .null, .null => true
  | .boolean a, .boolean b => a == b
  | .integer a, .integer b => a == b
  | .unsigned a, .unsigned b => a == b
  | .float a, .float b => a.numericEq b
  | .string a, .string b => a == b
  | .array as, .array bs => numericEqAll as bs
  | _, _ => false

/-- `numericEq` of the elements of two lists of one length. -/
def numericEqAll : List Literal → List Literal → Bool
  | [], [] => true
  | a :: as, b :: bs => numericEq a b && numericEqAll as bs
  | _, _ => false

end

end Literal

end RelAlg
