import RelAlg.Document.Basic
import RelAlg.Node.Basic

/-!
# Trees as documents

Every part of a tree has one document.  Relations and functions are objects whose first member,
`relation` or `function`, names the operation; attributes and directions are objects with a
member a field; operands and nodes are objects with one member that names their sort; literals
are plain values.

* `Relation.toDocument`, `Function.toDocument`, `Node.toDocument` and so on.
-/

namespace RelAlg

/-- An element of a vocabulary is written as its word. -/
def wordDocument {α : Type} [Vocabulary α] (a : α) : Document := .string (Vocabulary.word a)

mutual

def Literal.toDocument : Literal → Document
  | .null => .null
  | .boolean b => .boolean b
  | .integer n => .integer n.toInt
  | .unsigned n => .integer n.toNat
  | .float x => .float x
  | .string s => .string s
  | .array items => .array (Literal.toDocuments items)

def Literal.toDocuments : List Literal → List Document
  | [] => []
  | l :: rest => l.toDocument :: Literal.toDocuments rest

end

def Attribute.toDocument (a : Attribute) : Document :=
  .ofFields [("name", .string a.name), ("kind", wordDocument a.kind)]

def Header.toDocument (h : Header) : Document :=
  .array (h.attributes.map Attribute.toDocument)

def Direction.toDocument (d : Direction) : Document :=
  .ofFields [("order", wordDocument d.order), ("attribute", d.attr.toDocument)]

def DirectionSet.toDocument (s : DirectionSet) : Document :=
  .array (s.directions.map Direction.toDocument)

def AliasSet.toDocument (s : AliasSet) : Document :=
  .array (s.aliases.map fun (old, new) => .array [.string old, .string new])

def tupleDocument (t : Tuple) : Document := .array (Literal.toDocuments t)

mutual

def Operand.toDocument : Operand → Document
  | .attr a => .ofFields [("attribute", a.toDocument)]
  | .function f => .ofFields [("function", Function.toDocument f)]
  | .literal l => .ofFields [("literal", l.toDocument)]

def Function.toDocument : Function → Document
  | .binary op left right =>
    .ofFields [("function", .string "binary"), ("op", wordDocument op),
      ("left", Operand.toDocument left), ("right", Operand.toDocument right)]
  | .unary op operand =>
    .ofFields [("function", .string "unary"), ("op", wordDocument op),
      ("operand", Operand.toDocument operand)]
  | .tautology => .ofFields [("function", .string "tautology")]
  | .contradiction => .ofFields [("function", .string "contradiction")]

end

def extensionsDocument (extensions : List (String × Operand)) : Document :=
  .array (extensions.map fun (name, e) => .array [.string name, e.toDocument])

namespace Relation

def toDocument : Relation → Document
  | .base name header =>
    .ofFields [("relation", .string "base"), ("name", .string name), ("header", header.toDocument)]
  | .materialized header tuples =>
    .ofFields [("relation", .string "materialized"), ("header", header.toDocument),
      ("tuples", .array (tuples.map tupleDocument))]
  | .order operand directions =>
    .ofFields [("relation", .string "order"), ("operand", operand.toDocument),
      ("directions", directions.toDocument)]
  | .limit operand n =>
    .ofFields [("relation", .string "limit"), ("operand", operand.toDocument),
      ("limit", .integer n.toNat)]
  | .offset operand n =>
    .ofFields [("relation", .string "offset"), ("operand", operand.toDocument),
      ("offset", .integer n.toNat)]
  | .reverse operand =>
    .ofFields [("relation", .string "reverse"), ("operand", operand.toDocument)]
  | .deletion operand other =>
    .ofFields [("relation", .string "deletion"), ("operand", operand.toDocument),
      ("other", other.toDocument)]
  | .insertion operand other =>
    .ofFields [("relation", .string "insertion"), ("operand", operand.toDocument),
      ("other", other.toDocument)]
  | .combine op left right =>
    .ofFields [("relation", .string "combine"), ("op", wordDocument op),
      ("left", left.toDocument), ("right", right.toDocument)]
  | .projection operand header =>
    .ofFields [("relation", .string "projection"), ("operand", operand.toDocument),
      ("header", header.toDocument)]
  | .restriction operand predicate =>
    .ofFields [("relation", .string "restriction"), ("operand", operand.toDocument),
      ("predicate", predicate.toDocument)]
  | .extension operand extensions =>
    .ofFields [("relation", .string "extension"), ("operand", operand.toDocument),
      ("extensions", extensionsDocument extensions)]
  | .rename operand aliases =>
    .ofFields [("relation", .string "rename"), ("operand", operand.toDocument),
      ("aliases", aliases.toDocument)]
  | .summarization operand per =>
    .ofFields [("relation", .string "summarization"), ("operand", operand.toDocument),
      ("summarize_per", per.toDocument)]

end Relation

namespace Node

def toDocument : Node → Document
  | relation r => .ofFields [("relation", r.toDocument)]
  | function f => .ofFields [("function", f.toDocument)]
  | attr a => .ofFields [("attribute", a.toDocument)]
  | header h => .ofFields [("header", h.toDocument)]
  | direction d => .ofFields [("direction", d.toDocument)]
  | directionSet s => .ofFields [("direction_set", s.toDocument)]
  | aliases s => .ofFields [("aliases", s.toDocument)]
  | literal l => .ofFields [("literal", l.toDocument)]
  | count n => .ofFields [("count", .integer n.toNat)]

end Node

end RelAlg
