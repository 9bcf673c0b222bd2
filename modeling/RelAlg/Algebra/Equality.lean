import RelAlg.Algebra.Relation

/-!
# Numeric equality of trees

Two trees are numerically equal when they are built alike and their float literals compare equal as
numbers.  This is coarser than identity on zeros and finer on NaNs, so it is not reflexive.

* `Operand.numericEq`, `Function.numericEq`, `Relation.numericEq`.
-/

namespace RelAlg

mutual

def Operand.numericEq : Operand → Operand → Bool
  | .attr a, .attr b => a == b
  | .function f, .function g => Function.numericEq f g
  | .literal l, .literal k => l.numericEq k
  | _, _ => false

def Function.numericEq : Function → Function → Bool
  | .binary op left right, .binary op' left' right' =>
    op == op' && Operand.numericEq left left' && Operand.numericEq right right'
  | .unary op operand, .unary op' operand' => op == op' && Operand.numericEq operand operand'
  | .tautology, .tautology => true
  | .contradiction, .contradiction => true
  | _, _ => false

end

/-- Equal names and numerically equal expressions, entry by entry. -/
def extensionsNumericEq : List (String × Operand) → List (String × Operand) → Bool
  | [], [] => true
  | (name, e) :: rest, (name', e') :: rest' =>
    name == name' && e.numericEq e' && extensionsNumericEq rest rest'
  | _, _ => false

namespace Relation

def numericEq : Relation → Relation → Bool
  | .base name header, .base name' header' => name == name' && header == header'
  | .materialized header tuples, .materialized header' tuples' =>
    header == header' && Literal.numericEqAll (tuples.map .array) (tuples'.map .array)
  | .order operand directions, .order operand' directions' =>
    operand.numericEq operand' && directions == directions'
  | .limit operand n, .limit operand' n' => operand.numericEq operand' && n == n'
  | .offset operand n, .offset operand' n' => operand.numericEq operand' && n == n'
  | .reverse operand, .reverse operand' => operand.numericEq operand'
  | .deletion operand other, .deletion operand' other' =>
    operand.numericEq operand' && other.numericEq other'
  | .insertion operand other, .insertion operand' other' =>
    operand.numericEq operand' && other.numericEq other'
  | .combine op left right, .combine op' left' right' =>
    op == op' && left.numericEq left' && right.numericEq right'
  | .projection operand header, .projection operand' header' =>
    operand.numericEq operand' && header == header'
  | .restriction operand predicate, .restriction operand' predicate' =>
    operand.numericEq operand' && predicate.numericEq predicate'
  | .extension operand extensions, .extension operand' extensions' =>
    operand.numericEq operand' && extensionsNumericEq extensions extensions'
  | .rename operand aliases, .rename operand' aliases' =>
    operand.numericEq operand' && aliases == aliases'
  | .summarization operand per, .summarization operand' per' =>
    operand.numericEq operand' && per.numericEq per'
  | _, _ => false

end Relation

end RelAlg
