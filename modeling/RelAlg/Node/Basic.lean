import RelAlg.Node.Kind
import RelAlg.Algebra.Equality

/-!
# Nodes and their fields

Every part of a tree can be looked at as a `Node`: it reports its kind and gives access to its
parts by field name, so that a table of rules can say which parts it reads without knowing the
types behind them.

* `Node.kind`      : the kind, `none` for a scalar;
* `Node.field`     : the child in a named slot;
* `Node.items`     : the children of a collection;
* `Node.name`, `Node.headerOf`, `Node.tuples`, `Node.extensions`: the other accessors;
* `Node.numericEq` : numeric equality.
-/

namespace RelAlg

/-! ## Field names -/

/-- A slot of a node. -/
inductive Field where
  | operand
  | left
  | right
  | other
  | predicate
  | header
  | directions
  | attr
  | limit
  | offset
  | aliases
  | summarizePer
  | name
  | tuples
  | extensions
  | items
deriving DecidableEq, Inhabited

namespace Field

instance : Vocabulary Field where
  all := [operand, left, right, other, predicate, header, directions, attr, limit, offset, aliases,
    summarizePer, name, tuples, extensions, items]
  word
    | operand => "operand"
    | left => "left"
    | right => "right"
    | other => "other"
    | predicate => "predicate"
    | header => "header"
    | directions => "directions"
    | attr => "attribute"
    | limit => "limit"
    | offset => "offset"
    | aliases => "aliases"
    | summarizePer => "summarize_per"
    | name => "name"
    | tuples => "tuples"
    | extensions => "extensions"
    | items => "items"

end Field

/-! ## Nodes -/

/-- Any part of a tree. -/
inductive Node where
  | relation (r : Relation)
  | function (f : Function)
  | attr (a : Attribute)
  | header (h : Header)
  | direction (d : Direction)
  | directionSet (s : DirectionSet)
  | aliases (s : AliasSet)
  | literal (l : Literal)
  | count (n : UInt64)

namespace Relation

def nodeKind : Relation → NodeKind
  | .base .. => .base
  | .materialized .. => .materialized
  | .order .. => .order
  | .limit .. => .limit
  | .offset .. => .offset
  | .reverse .. => .reverse
  | .deletion .. => .deletion
  | .insertion .. => .insertion
  | .combine op _ _ => op.nodeKind
  | .projection .. => .projection
  | .restriction .. => .restriction
  | .extension .. => .extension
  | .rename .. => .rename
  | .summarization .. => .summarization

/-- The part of a relation in a slot. -/
def field : Relation → Field → Option Node
  | .order operand _, .operand | .limit operand _, .operand | .offset operand _, .operand
  | .reverse operand, .operand | .deletion operand _, .operand | .insertion operand _, .operand
  | .projection operand _, .operand | .restriction operand _, .operand
  | .extension operand _, .operand | .rename operand _, .operand
  | .summarization operand _, .operand => some (.relation operand)
  | .order _ directions, .directions => some (.directionSet directions)
  | .limit _ n, .limit => some (.count n)
  | .offset _ n, .offset => some (.count n)
  | .deletion _ other, .other | .insertion _ other, .other => some (.relation other)
  | .combine _ left _, .left => some (.relation left)
  | .combine _ _ right, .right => some (.relation right)
  | .base _ header, .header | .materialized header _, .header
  | .projection _ header, .header => some (.header header)
  | .restriction _ predicate, .predicate => some (.function predicate)
  | .rename _ aliases, .aliases => some (.aliases aliases)
  | .summarization _ per, .summarizePer => some (.relation per)
  | _, _ => none

end Relation

namespace Function

def nodeKind : Function → NodeKind
  | .binary op _ _ => op.nodeKind
  | .unary op _ => op.nodeKind
  | .tautology => .tautology
  | .contradiction => .contradiction

end Function

namespace Operand

/-- What an operand holds, as a node. -/
def node : Operand → Node
  | .attr a => .attr a
  | .function f => .function f
  | .literal l => .literal l

end Operand

namespace Node

/-- The kind of a node; literals and counts have none. -/
def kind : Node → Option NodeKind
  | relation r => some r.nodeKind
  | function f => some f.nodeKind
  | attr a => some a.kind.nodeKind
  | header _ => some .header
  | direction d => some d.order.nodeKind
  | directionSet _ => some .directionSet
  | aliases _ => some .aliasSet
  | literal _ | count _ => none

/-- The child in a slot. -/
def field : Node → Field → Option Node
  | relation r, f => r.field f
  | function (.binary _ left _), .left => some left.node
  | function (.binary _ _ right), .right => some right.node
  | function (.unary _ operand), .operand => some operand.node
  | direction d, .attr => some (attr d.attr)
  | _, _ => none

/-- The name of a base relation or an attribute. -/
def name : Node → Option String
  | relation (.base name _) => some name
  | attr a => some a.name
  | _ => none

/-- The header of a base or materialized relation or a projection, or the node itself if
it is one. -/
def headerOf : Node → Option Header
  | relation (.base _ h) | relation (.materialized h _) | relation (.projection _ h) => some h
  | header h => some h
  | _ => none

/-- The rows of a materialized relation. -/
def tuples : Node → Option (List Tuple)
  | relation (.materialized _ tuples) => some tuples
  | _ => none

/-- The named expressions of an extension. -/
def extensions : Node → Option (List (String × Operand))
  | relation (.extension _ extensions) => some extensions
  | _ => none

/-- The children of a header or a set of directions, in order. -/
def items : Node → Option (List Node)
  | header h => some (h.attributes.map attr)
  | directionSet s => some (s.directions.map direction)
  | _ => none

/-- Equality in which float literals compare as numbers. -/
def numericEq : Node → Node → Bool
  | relation r, relation s => r.numericEq s
  | function f, function g => f.numericEq g
  | attr a, attr b => a == b
  | header h, header k => h == k
  | direction d, direction e => d == e
  | directionSet s, directionSet t => s == t
  | aliases s, aliases t => s == t
  | literal l, literal k => l.numericEq k
  | count m, count n => m == n
  | _, _ => false

end Node

end RelAlg
