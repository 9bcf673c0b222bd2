import RelAlg.Node.Basic

/-!
# Formatting rules

A rule says how a node of one kind is written: under which tag, and which of its fields follow.

* `Rule`        : eight shapes, three of them with a tag and slots of their own;
* `Rule.fields` : the fields a rule reads, in the order in which it reads them;
* `Rule.tag?`   : the symbol that heads the output, which only the rule for collections lacks.
-/

namespace RelAlg

inductive Rule where
  /-- The tag alone. -/
  | fixed (tag : String)
  /-- The tag and one child. -/
  | unary (tag : String) (field : Field)
  /-- The tag and two children. -/
  | binary (tag : String) (first second : Field)
  /-- The items, without a tag. -/
  | collect
  /-- A name and the pairs of a header. -/
  | base
  /-- The pairs of a header and the rows below it. -/
  | materialized
  /-- An operand and named expressions. -/
  | extend
  /-- The name alone, as a symbol. -/
  | attr
deriving DecidableEq, Inhabited

namespace Rule

/-- What the rule is called in a listing. -/
def name : Rule → String
  | fixed _ => "static"
  | unary .. => "unary"
  | binary .. => "binary"
  | collect => "collect"
  | base => "base"
  | materialized => "materialized"
  | extend => "extend"
  | attr => "attribute"

def fields : Rule → List Field
  | fixed _ => []
  | unary _ field => [field]
  | binary _ first second => [first, second]
  | collect => [.items]
  | base => [.name, .header]
  | materialized => [.header, .tuples]
  | extend => [.operand, .extensions]
  | attr => [.name]

/-- The symbol at the head of the output. -/
def tag? : Rule → Option String
  | fixed tag | unary tag _ | binary tag _ _ => some tag
  | base => some "base"
  | materialized => some "materialized"
  | extend => some "extend"
  | attr => some "attr"
  | collect => none

/-- The rule with its tag and slots, in words. -/
def describe : Rule → String
  | fixed tag => s!"static {tag}"
  | unary tag field => s!"unary {tag} {Vocabulary.word field}"
  | binary tag first second => s!"binary {tag} {Vocabulary.word first} {Vocabulary.word second}"
  | rule => rule.name

/-- A unary rule on the slot `operand`. -/
def onOperand (tag : String) : Rule := unary tag .operand

/-- A binary rule on the slots `left` and `right`. -/
def onSides (tag : String) : Rule := binary tag .left .right

end Rule

end RelAlg
