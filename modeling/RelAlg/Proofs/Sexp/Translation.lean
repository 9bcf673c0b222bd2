import RelAlg.Proofs.Registry.Lookup
import RelAlg.Proofs.Sexp.OneStep

/-!
# The canonical s-expression, written out

`Sexp.ofNode` is driven by a table of rules.  Here the same s-expression is given by plain
recursion on the tree: every constructor says which list it becomes, and neither kinds nor rules
nor slots occur.

* `Relation.translate`, `Function.translate`, `Node.translate` and so on: the translation;
* `ofNode_canonical`: under the canonical rules every node can be formatted, and the result is its
  translation.
-/

namespace RelAlg

/-! ## Tags -/

/-- The head of the list for a binary function. -/
def BinaryOp.tag : BinaryOp → String
  | .and => "and"
  | .or => "or"
  | .equality => "eq"
  | .inequality => "neq"
  | .greaterThan => "gt"
  | .greaterThanOrEqualTo => "gte"
  | .lessThan => "lt"
  | .lessThanOrEqualTo => "lte"
  | .inclusion => "in"
  | .exclusion => "ex"
  | .patternMatch => "match"
  | .noPatternMatch => "no_match"
  | .addition => "add"
  | .subtraction => "sub"
  | .multiplication => "mul"
  | .division => "div"
  | .modulo => "mod"
  | .exponentiation => "exp"

/-- The head of the list for a unary function. -/
def UnaryOp.tag : UnaryOp → String
  | .not => "not"
  | .length => "length"
  | .absolute => "abs"
  | .squareRoot => "sqr"
  | .unaryMinus => "unary_minus"
  | .unaryPlus => "unary_plus"

/-- The head of the list for a combination of two relations. -/
def Combinator.tag : Combinator → String
  | .join => "join"
  | .product => "product"
  | .union => "union"
  | .intersection => "intersect"
  | .difference => "difference"

/-- The head of the list for a sort direction. -/
def SortOrder.tag : SortOrder → String
  | .ascending => "asc"
  | .descending => "desc"

/-! ## Flat parts -/

mutual

/-- A scalar is an atom, an array the list of its elements. -/
def Literal.translate : Literal → Sexp
  | .null => .null
  | .boolean b => .boolean b
  | .integer n => .integer n
  | .unsigned n => .unsigned n
  | .float x => .float x
  | .string s => .string s
  | .array items => .list (Literal.translateAll items)

def Literal.translateAll : List Literal → List Sexp
  | [] => []
  | l :: rest => l.translate :: Literal.translateAll rest

end

/-- A reference to an attribute shows its name only. -/
def Attribute.translate (a : Attribute) : Sexp := .list [.symbol "attr", .symbol a.name]

/-- A header that is referred to, as in a projection. -/
def Header.translate (h : Header) : Sexp := .list (h.attributes.map Attribute.translate)

/-- A header that declares its attributes: pairs of a name and a kind. -/
def Header.declaration (h : Header) : Sexp :=
  .list (h.attributes.map fun a => .list [.symbol a.name, .kind a.kind])

/-- A row is the list of its values. -/
def Tuple.translate (t : Tuple) : Sexp := .list (Literal.translateAll t)

def Direction.translate (d : Direction) : Sexp := .list [.symbol d.order.tag, d.attr.translate]

def DirectionSet.translate (s : DirectionSet) : Sexp := .list (s.directions.map Direction.translate)

/-- A set of aliases stays as it is. -/
def AliasSet.translate (s : AliasSet) : Sexp := .node (.aliases s)

/-! ## Trees -/

mutual

def Operand.translate : Operand → Sexp
  | .attr a => a.translate
  | .function f => Function.translate f
  | .literal l => l.translate

def Function.translate : Function → Sexp
  | .binary op left right => .list [.symbol op.tag, Operand.translate left, Operand.translate right]
  | .unary op operand => .list [.symbol op.tag, Operand.translate operand]
  | .tautology => .list [.symbol "true"]
  | .contradiction => .list [.symbol "false"]

end

/-- Named expressions, in declaration order. -/
def extensionsTranslate (extensions : List (String × Operand)) : Sexp :=
  .list (extensions.map fun x => .list [.symbol x.1, x.2.translate])

def Relation.translate : Relation → Sexp
  | .base name header => .list [.symbol "base", .string name, header.declaration]
  | .materialized header tuples =>
    .list [.symbol "materialized", header.declaration, .list (tuples.map Tuple.translate)]
  | .order operand directions => .list [.symbol "order", operand.translate, directions.translate]
  | .limit operand n => .list [.symbol "limit", operand.translate, .unsigned n]
  | .offset operand n => .list [.symbol "offset", operand.translate, .unsigned n]
  | .reverse operand => .list [.symbol "reverse", operand.translate]
  | .deletion operand other => .list [.symbol "delete", operand.translate, other.translate]
  | .insertion operand other => .list [.symbol "insert", operand.translate, other.translate]
  | .combine op left right => .list [.symbol op.tag, left.translate, right.translate]
  | .projection operand header => .list [.symbol "project", operand.translate, header.translate]
  | .restriction operand predicate =>
    .list [.symbol "restrict", operand.translate, predicate.translate]
  | .extension operand extensions =>
    .list [.symbol "extend", operand.translate, extensionsTranslate extensions]
  | .rename operand aliases => .list [.symbol "rename", operand.translate, aliases.translate]
  | .summarization operand per => .list [.symbol "summarize", operand.translate, per.translate]

def Node.translate : Node → Sexp
  | .relation r => r.translate
  | .function f => f.translate
  | .attr a => a.translate
  | .header h => h.translate
  | .direction d => d.translate
  | .directionSet s => s.translate
  | .aliases s => s.translate
  | .literal l => l.translate
  | .count n => .unsigned n

/-! ## The canonical rules of operators -/

namespace Registry

theorem rule?_canonical_binaryOp (op : BinaryOp) :
    canonical.rule? op.nodeKind = some (.onSides op.tag) := by
  cases op <;> exact rule?_canonical (by decide)

theorem rule?_canonical_unaryOp (op : UnaryOp) :
    canonical.rule? op.nodeKind = some (.onOperand op.tag) := by
  cases op <;> exact rule?_canonical (by decide)

theorem rule?_canonical_combinator (op : Combinator) :
    canonical.rule? op.nodeKind = some (.onSides op.tag) := by
  cases op <;> exact rule?_canonical (by decide)

theorem rule?_canonical_sortOrder (o : SortOrder) :
    canonical.rule? o.nodeKind = some (.unary o.tag .attr) := by
  cases o <;> exact rule?_canonical (by decide)

theorem rule?_canonical_attributeKind (k : AttributeKind) :
    canonical.rule? k.nodeKind = some .attr := by
  cases k <;> exact rule?_canonical (by decide)

end Registry

/-! ## Formatting is translating -/

mutual

theorem Literal.toSexp_eq_translate : ∀ l : Literal, l.toSexp = l.translate
  | .null | .boolean _ | .integer _ | .unsigned _ | .float _ | .string _ => rfl
  | .array items => congrArg Sexp.list (Literal.toSexps_eq_translateAll items)

theorem Literal.toSexps_eq_translateAll : ∀ l : List Literal,
    Literal.toSexps l = Literal.translateAll l
  | [] => rfl
  | l :: rest =>
    congrArg₂ List.cons (Literal.toSexp_eq_translate l) (Literal.toSexps_eq_translateAll rest)

end

namespace Sexp

open Registry

theorem ofNode_literal (l : Literal) : ofNode canonical (.literal l) = .ok l.translate := by
  rw [ofNode_of_kind_eq_none rfl, Node.passThrough, l.toSexp_eq_translate]

theorem ofNode_count (n : UInt64) : ofNode canonical (.count n) = .ok (.unsigned n) :=
  ofNode_of_kind_eq_none rfl

theorem ofNode_attr (a : Attribute) : ofNode canonical (.attr a) = .ok a.translate := by
  rw [ofNode_of_rule rfl (rule?_canonical_attributeKind a.kind)]
  rfl

theorem ofNode_direction (d : Direction) : ofNode canonical (.direction d) = .ok d.translate :=
  ofNode_unary rfl (rule?_canonical_sortOrder d.order) rfl (ofNode_attr d.attr)

theorem ofNode_header (h : Header) : ofNode canonical (.header h) = .ok h.translate := by
  rw [ofNode_collect Node.translate rfl (rule?_canonical (by decide)) rfl]
  · rw [List.map_map]; rfl
  · intro c hc
    obtain ⟨a, -, rfl⟩ := List.mem_map.1 hc
    exact ofNode_attr a

theorem ofNode_directionSet (s : DirectionSet) :
    ofNode canonical (.directionSet s) = .ok s.translate := by
  rw [ofNode_collect Node.translate rfl (rule?_canonical (by decide)) rfl]
  · rw [List.map_map]; rfl
  · intro c hc
    obtain ⟨d, -, rfl⟩ := List.mem_map.1 hc
    exact ofNode_direction d

theorem ofNode_aliases (s : AliasSet) : ofNode canonical (.aliases s) = .ok s.translate :=
  ofNode_of_rule?_eq_none rfl rule?_canonical_aliasSet

mutual

theorem ofNode_operand : ∀ e : Operand, ofNode canonical e.node = .ok e.translate
  | .attr a => ofNode_attr a
  | .function f => ofNode_function f
  | .literal l => ofNode_literal l

theorem ofNode_function : ∀ f : Function, ofNode canonical (.function f) = .ok f.translate
  | .binary op left right =>
    ofNode_binary rfl (rule?_canonical_binaryOp op) rfl rfl (ofNode_operand left)
      (ofNode_operand right)
  | .unary op operand =>
    ofNode_unary rfl (rule?_canonical_unaryOp op) rfl (ofNode_operand operand)
  | .tautology => ofNode_fixed rfl (rule?_canonical (by decide))
  | .contradiction => ofNode_fixed rfl (rule?_canonical (by decide))

end

theorem ofNode_base (name : String) (header : Header) :
    ofNode canonical (.relation (.base name header))
      = .ok (Relation.base name header).translate := by
  rw [ofNode_of_rule rfl (rule?_canonical (by decide : (NodeKind.base, Rule.base) ∈ _))]
  rfl

theorem ofNode_materialized (header : Header) (tuples : List Tuple) :
    ofNode canonical (.relation (.materialized header tuples))
      = .ok (Relation.materialized header tuples).translate := by
  rw [ofNode_of_rule rfl
    (rule?_canonical (by decide : (NodeKind.materialized, Rule.materialized) ∈ _))]
  have hrows : rowsSexp tuples = .list (tuples.map Tuple.translate) := by
    simp only [rowsSexp, Literal.toSexps_eq_translateAll]
    rfl
  show Except.ok (list [symbol "materialized", header.pairs, rowsSexp tuples]) = _
  rw [hrows]
  rfl

/-- A relation can be formatted whatever its operands are. -/
theorem ofNode_relation (r : Relation) : ofNode canonical (.relation r) = .ok r.translate := by
  induction r with
  | base name header => exact ofNode_base name header
  | materialized header tuples => exact ofNode_materialized header tuples
  | order operand directions ih =>
    exact ofNode_binary (k := .order) (f := .operand) (g := .directions) rfl
      (rule?_canonical (by decide)) rfl rfl ih (ofNode_directionSet directions)
  | limit operand n ih =>
    exact ofNode_binary (k := .limit) (f := .operand) (g := .limit) rfl
      (rule?_canonical (by decide)) rfl rfl ih (ofNode_count n)
  | offset operand n ih =>
    exact ofNode_binary (k := .offset) (f := .operand) (g := .offset) rfl
      (rule?_canonical (by decide)) rfl rfl ih (ofNode_count n)
  | reverse operand ih =>
    exact ofNode_unary (k := .reverse) (f := .operand) rfl (rule?_canonical (by decide)) rfl ih
  | deletion operand other ih₁ ih₂ =>
    exact ofNode_binary (k := .deletion) (f := .operand) (g := .other) rfl
      (rule?_canonical (by decide)) rfl rfl ih₁ ih₂
  | insertion operand other ih₁ ih₂ =>
    exact ofNode_binary (k := .insertion) (f := .operand) (g := .other) rfl
      (rule?_canonical (by decide)) rfl rfl ih₁ ih₂
  | combine op left right ih₁ ih₂ =>
    exact ofNode_binary rfl (rule?_canonical_combinator op) rfl rfl ih₁ ih₂
  | projection operand header ih =>
    exact ofNode_binary (k := .projection) (f := .operand) (g := .header) rfl
      (rule?_canonical (by decide)) rfl rfl ih (ofNode_header header)
  | restriction operand predicate ih =>
    exact ofNode_binary (k := .restriction) (f := .operand) (g := .predicate) rfl
      (rule?_canonical (by decide)) rfl rfl ih (ofNode_function predicate)
  | extension operand extensions ih =>
    exact ofNode_extend (k := .extension) rfl (rule?_canonical (by decide)) rfl rfl ih
      ofNode_operand
  | rename operand aliases ih =>
    exact ofNode_binary (k := .rename) (f := .operand) (g := .aliases) rfl
      (rule?_canonical (by decide)) rfl rfl ih (ofNode_aliases aliases)
  | summarization operand per ih₁ ih₂ =>
    exact ofNode_binary (k := .summarization) (f := .operand) (g := .summarizePer) rfl
      (rule?_canonical (by decide)) rfl rfl ih₁ ih₂

end Sexp

/-- Under the canonical rules every node can be formatted, and the result is its translation. -/
theorem ofNode_canonical (n : Node) : Sexp.ofNode .canonical n = .ok n.translate := by
  cases n with
  | relation r => exact Sexp.ofNode_relation r
  | function f => exact Sexp.ofNode_function f
  | attr a => exact Sexp.ofNode_attr a
  | header h => exact Sexp.ofNode_header h
  | direction d => exact Sexp.ofNode_direction d
  | directionSet s => exact Sexp.ofNode_directionSet s
  | aliases s => exact Sexp.ofNode_aliases s
  | literal l => exact Sexp.ofNode_literal l
  | count n => exact Sexp.ofNode_count n

end RelAlg
