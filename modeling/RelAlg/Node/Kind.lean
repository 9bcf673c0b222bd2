import RelAlg.Algebra.Relation

/-!
# Node kinds

The closed set of kinds that a part of a tree can have.  Scalars, which are literals and
counts, have none.

* `NodeKind`                 : 58 kinds, in the order that sorts a registry;
* `NodeKind.rank`            : the position of a kind in that order;
* `BinaryOp.nodeKind` and so on: the kind that an operator, sort order or attribute kind stands for.
-/

namespace RelAlg

inductive NodeKind where
  | base
  | materialized
  | order
  | limit
  | offset
  | reverse
  | deletion
  | insertion
  | join
  | product
  | union
  | intersection
  | difference
  | projection
  | restriction
  | extension
  | rename
  | summarization
  | header
  | directionSet
  | aliasSet
  | ascending
  | descending
  | conjunction
  | disjunction
  | negation
  | length
  | equality
  | inequality
  | greaterThan
  | greaterThanOrEqualTo
  | lessThan
  | lessThanOrEqualTo
  | inclusion
  | exclusion
  | patternMatch
  | noPatternMatch
  | addition
  | subtraction
  | multiplication
  | division
  | modulo
  | exponentiation
  | absolute
  | squareRoot
  | unaryMinus
  | unaryPlus
  | tautology
  | contradiction
  | booleanAttribute
  | dateAttribute
  | dateTimeAttribute
  | decimalAttribute
  | floatAttribute
  | integerAttribute
  | stringAttribute
  | timeAttribute
  | objectAttribute
deriving DecidableEq, Inhabited

namespace NodeKind

instance : Vocabulary NodeKind where
  all := [
    base, materialized, order, limit, offset, reverse, deletion, insertion, join, product, union,
    intersection, difference, projection, restriction, extension, rename, summarization, header,
    directionSet, aliasSet, ascending, descending, conjunction, disjunction, negation, length,
    equality, inequality, greaterThan, greaterThanOrEqualTo, lessThan, lessThanOrEqualTo, inclusion,
    exclusion, patternMatch, noPatternMatch, addition, subtraction, multiplication, division,
    modulo, exponentiation, absolute, squareRoot, unaryMinus, unaryPlus, tautology, contradiction,
    booleanAttribute, dateAttribute, dateTimeAttribute, decimalAttribute, floatAttribute,
    integerAttribute, stringAttribute, timeAttribute, objectAttribute]
  word
    | base => "base"
    | materialized => "materialized"
    | order => "order"
    | limit => "limit"
    | offset => "offset"
    | reverse => "reverse"
    | deletion => "deletion"
    | insertion => "insertion"
    | join => "join"
    | product => "product"
    | union => "union"
    | intersection => "intersection"
    | difference => "difference"
    | projection => "projection"
    | restriction => "restriction"
    | extension => "extension"
    | rename => "rename"
    | summarization => "summarization"
    | header => "header"
    | directionSet => "direction_set"
    | aliasSet => "alias_set"
    | ascending => "ascending"
    | descending => "descending"
    | conjunction => "conjunction"
    | disjunction => "disjunction"
    | negation => "negation"
    | length => "length"
    | equality => "equality"
    | inequality => "inequality"
    | greaterThan => "greater_than"
    | greaterThanOrEqualTo => "greater_than_or_equal_to"
    | lessThan => "less_than"
    | lessThanOrEqualTo => "less_than_or_equal_to"
    | inclusion => "inclusion"
    | exclusion => "exclusion"
    | patternMatch => "match"
    | noPatternMatch => "no_match"
    | addition => "addition"
    | subtraction => "subtraction"
    | multiplication => "multiplication"
    | division => "division"
    | modulo => "modulo"
    | exponentiation => "exponentiation"
    | absolute => "absolute"
    | squareRoot => "square_root"
    | unaryMinus => "unary_minus"
    | unaryPlus => "unary_plus"
    | tautology => "tautology"
    | contradiction => "contradiction"
    | booleanAttribute => "boolean_attribute"
    | dateAttribute => "date_attribute"
    | dateTimeAttribute => "date_time_attribute"
    | decimalAttribute => "decimal_attribute"
    | floatAttribute => "float_attribute"
    | integerAttribute => "integer_attribute"
    | stringAttribute => "string_attribute"
    | timeAttribute => "time_attribute"
    | objectAttribute => "object_attribute"

/-- The position of a kind among all kinds. -/
def rank (k : NodeKind) : Nat := (Vocabulary.all : List NodeKind).idxOf k

end NodeKind

/-! ## Kinds of operators and orders -/

namespace BinaryOp

def nodeKind : BinaryOp → NodeKind
  | .and => .conjunction
  | .or => .disjunction
  | .equality => .equality
  | .inequality => .inequality
  | .greaterThan => .greaterThan
  | .greaterThanOrEqualTo => .greaterThanOrEqualTo
  | .lessThan => .lessThan
  | .lessThanOrEqualTo => .lessThanOrEqualTo
  | .inclusion => .inclusion
  | .exclusion => .exclusion
  | .patternMatch => .patternMatch
  | .noPatternMatch => .noPatternMatch
  | .addition => .addition
  | .subtraction => .subtraction
  | .multiplication => .multiplication
  | .division => .division
  | .modulo => .modulo
  | .exponentiation => .exponentiation

end BinaryOp

namespace UnaryOp

def nodeKind : UnaryOp → NodeKind
  | .not => .negation
  | .length => .length
  | .absolute => .absolute
  | .squareRoot => .squareRoot
  | .unaryMinus => .unaryMinus
  | .unaryPlus => .unaryPlus

end UnaryOp

namespace Combinator

def nodeKind : Combinator → NodeKind
  | .join => .join
  | .product => .product
  | .union => .union
  | .intersection => .intersection
  | .difference => .difference

end Combinator

namespace SortOrder

def nodeKind : SortOrder → NodeKind
  | .ascending => .ascending
  | .descending => .descending

end SortOrder

namespace AttributeKind

def nodeKind : AttributeKind → NodeKind
  | .boolean => .booleanAttribute
  | .date => .dateAttribute
  | .dateTime => .dateTimeAttribute
  | .decimal => .decimalAttribute
  | .float => .floatAttribute
  | .integer => .integerAttribute
  | .string => .stringAttribute
  | .time => .timeAttribute
  | .object => .objectAttribute

end AttributeKind

end RelAlg
