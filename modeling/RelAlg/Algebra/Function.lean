import RelAlg.Algebra.Attribute
import RelAlg.Algebra.Literal

/-!
# Functions

Predicates, connectives and numeric operators over operands, which are attributes, nested
functions or literals.

* `BinaryOp`, `UnaryOp`     : the operators;
* `Function`, `Operand`     : the two mutually nested types;
* `Function.equals` and so on: builders named for what they express.
-/

namespace RelAlg

/-! ## Operators -/

inductive BinaryOp where
  | and
  | or
  | equality
  | inequality
  | greaterThan
  | greaterThanOrEqualTo
  | lessThan
  | lessThanOrEqualTo
  | inclusion
  | exclusion
  | patternMatch
  | noPatternMatch
  | addition
  | subtraction
  | multiplication
  | division
  | modulo
  | exponentiation
deriving DecidableEq, Inhabited

instance : Vocabulary BinaryOp where
  all := [.and, .or, .equality, .inequality, .greaterThan, .greaterThanOrEqualTo, .lessThan,
    .lessThanOrEqualTo, .inclusion, .exclusion, .patternMatch, .noPatternMatch, .addition,
    .subtraction, .multiplication, .division, .modulo, .exponentiation]
  word
    | .and => "and"
    | .or => "or"
    | .equality => "equality"
    | .inequality => "inequality"
    | .greaterThan => "greater_than"
    | .greaterThanOrEqualTo => "greater_than_or_equal_to"
    | .lessThan => "less_than"
    | .lessThanOrEqualTo => "less_than_or_equal_to"
    | .inclusion => "inclusion"
    | .exclusion => "exclusion"
    | .patternMatch => "match"
    | .noPatternMatch => "no_match"
    | .addition => "addition"
    | .subtraction => "subtraction"
    | .multiplication => "multiplication"
    | .division => "division"
    | .modulo => "modulo"
    | .exponentiation => "exponentiation"

inductive UnaryOp where
  | not
  | length
  | absolute
  | squareRoot
  | unaryMinus
  | unaryPlus
deriving DecidableEq, Inhabited

instance : Vocabulary UnaryOp where
  all := [.not, .length, .absolute, .squareRoot, .unaryMinus, .unaryPlus]
  word
    | .not => "not"
    | .length => "length"
    | .absolute => "absolute"
    | .squareRoot => "square_root"
    | .unaryMinus => "unary_minus"
    | .unaryPlus => "unary_plus"

/-! ## Functions and operands -/

mutual

/-- An argument of a function, or the expression that defines a new attribute. -/
inductive Operand where
  | attr (a : Attribute)
  | function (f : Function)
  | literal (l : Literal)

inductive Function where
  | binary (op : BinaryOp) (left right : Operand)
  | unary (op : UnaryOp) (operand : Operand)
  /-- The proposition that always holds. -/
  | tautology
  /-- The proposition that never holds. -/
  | contradiction

end

instance : Inhabited Function := ⟨.tautology⟩

instance : Inhabited Operand := ⟨.literal .null⟩

namespace Function

def equals (left right : Operand) : Function := .binary .equality left right

def multiply (left right : Operand) : Function := .binary .multiplication left right

/-- Conjunction of `f` and `other`. -/
def conj (f : Function) (other : Operand) : Function := .binary .and (.function f) other

/-- Disjunction of `f` and `other`. -/
def disj (f : Function) (other : Operand) : Function := .binary .or (.function f) other

def negate (f : Function) : Function := .unary .not (.function f)

end Function

end RelAlg
