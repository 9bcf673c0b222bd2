import RelAlg.Node.Size
import RelAlg.Registry
import RelAlg.Sexp.Basic

/-!
# From nodes to s-expressions

`Sexp.ofNode` turns a node into an s-expression as a registry says.  Its recursion is driven by the
table: which part is formatted next is the value of a rule, so it ends because every part of a node
is smaller than the node (`Node.Size`).

* `Sexp.ofNode`       : the s-expression of a node under a registry;
* `MissingField`      : the only failure, a rule that reads a field its node lacks;
* `Node.passThrough`  : what stands for a node without a rule.
-/

namespace RelAlg

/-- A field that a rule reads and the node does not have. -/
structure MissingField where
  kind : NodeKind
  field : Field
deriving DecidableEq

namespace MissingField

def message (e : MissingField) : String :=
  s!"[SX001] Node of kind '{Vocabulary.word e.kind}' has no '{Vocabulary.word e.field}' field"

end MissingField

/-- The pairs of names and kinds of a header, read without formatting its attributes. -/
def Header.pairs (h : Header) : Sexp :=
  .list (h.attributes.map fun a => .list [.symbol a.name, .kind a.kind])

/-- The rows of a materialized relation, read without formatting their values. -/
def rowsSexp (tuples : List Tuple) : Sexp :=
  .list (tuples.map fun t => .list (Literal.toSexps t))

namespace Node

/-- A scalar is its atom; any other node is kept whole. -/
def passThrough : Node → Sexp
  | literal l => l.toSexp
  | count n => .unsigned n
  | n => .node n

end Node

/-- The value of a field, which a node of kind `k` is expected to have. -/
def expectField {α : Type} (k : NodeKind) (f : Field) (value : Option α) : Except MissingField α :=
  match value with
  | some a => .ok a
  | none => .error ⟨k, f⟩

/-- The s-expression of a node.  Both fields of a binary rule are looked up before either is
formatted, and an extension's expressions before its operand is. -/
def Sexp.ofNode (r : Registry) (n : Node) : Except MissingField Sexp :=
  match n.kind with
  | none => .ok n.passThrough
  | some k =>
    match r.rule? k with
    | none => .ok n.passThrough
    | some (.fixed tag) => .ok (.list [.symbol tag])
    | some (.unary tag f) => do
      let ⟨child, _⟩ ← expectField k f (n.child? f)
      let s ← ofNode r child
      return .list [.symbol tag, s]
    | some (.binary tag f g) => do
      let ⟨left, _⟩ ← expectField k f (n.child? f)
      let ⟨right, _⟩ ← expectField k g (n.child? g)
      let s ← ofNode r left
      let t ← ofNode r right
      return .list [.symbol tag, s, t]
    | some .collect => do
      let items ← expectField k .items n.smallerItems?
      let out ← items.mapM fun ⟨item, _⟩ => ofNode r item
      return .list out
    | some .base => do
      let name ← expectField k .name n.name
      let header ← expectField k .header n.headerOf
      return .list [.symbol "base", .string name, header.pairs]
    | some .materialized => do
      let header ← expectField k .header n.headerOf
      let tuples ← expectField k .tuples n.tuples
      return .list [.symbol "materialized", header.pairs, rowsSexp tuples]
    | some .extend => do
      let ⟨operand, _⟩ ← expectField k .operand (n.child? .operand)
      let extensions ← expectField k .extensions n.smallerExtensions?
      let s ← ofNode r operand
      let out ← extensions.mapM fun (name, ⟨e, _⟩) => do
        let t ← ofNode r e
        return .list [.symbol name, t]
      return .list [.symbol "extend", s, .list out]
    | some .attr => do
      let name ← expectField k .name n.name
      return .list [.symbol "attr", .symbol name]
termination_by n.size

end RelAlg
