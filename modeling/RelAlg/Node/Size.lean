import RelAlg.Node.Basic

/-!
# The size of a node

The number of parts of a node.  Whatever field a rule asks for, the part it gets is smaller than the
node, so formatting ends under every table of rules.

* `Node.size`                       : the measure;
* `Node.size_lt_of_field`, `Node.size_lt_of_mem_items`, `Node.size_lt_of_mem_extensions`: parts are
  smaller;
* `Node.child?`, `Node.smallerItems?`, `Node.smallerExtensions?`: the accessors together
  with that fact.
-/

namespace RelAlg

/-! ## Counting parts -/

mutual

def Literal.size : Literal → Nat
  | .array items => 1 + Literal.sizeAll items
  | _ => 1

def Literal.sizeAll : List Literal → Nat
  | [] => 0
  | l :: rest => l.size + Literal.sizeAll rest

end

def Header.size (h : Header) : Nat := 1 + h.attributes.length

def Direction.size (_ : Direction) : Nat := 2

def DirectionSet.size (s : DirectionSet) : Nat := 1 + 2 * s.directions.length

def AliasSet.size (s : AliasSet) : Nat := 1 + s.aliases.length

mutual

def Operand.size : Operand → Nat
  | .attr _ => 1
  | .function f => Function.size f
  | .literal l => l.size

def Function.size : Function → Nat
  | .binary _ left right => 1 + Operand.size left + Operand.size right
  | .unary _ operand => 1 + Operand.size operand
  | .tautology => 1
  | .contradiction => 1

end

/-- Each named expression counts for one more than the expression. -/
def extensionsSize : List (String × Operand) → Nat
  | [] => 0
  | (_, e) :: rest => 1 + e.size + extensionsSize rest

def Relation.size : Relation → Nat
  | .base _ header => 1 + header.size
  | .materialized header tuples => 1 + header.size + Literal.sizeAll (tuples.map .array)
  | .order operand directions => 1 + operand.size + directions.size
  | .limit operand _ | .offset operand _ => 2 + operand.size
  | .reverse operand => 1 + operand.size
  | .deletion operand other | .insertion operand other => 1 + operand.size + other.size
  | .combine _ left right => 1 + left.size + right.size
  | .projection operand header => 1 + operand.size + header.size
  | .restriction operand predicate => 1 + operand.size + predicate.size
  | .extension operand extensions => 1 + operand.size + extensionsSize extensions
  | .rename operand aliases => 1 + operand.size + aliases.size
  | .summarization operand per => 1 + operand.size + per.size

namespace Node

def size : Node → Nat
  | relation r => r.size
  | function f => f.size
  | attr _ => 1
  | header h => h.size
  | direction d => d.size
  | directionSet s => s.size
  | aliases s => s.size
  | literal l => l.size
  | count _ => 1

/-! ## Parts are smaller -/

theorem size_operand (e : Operand) : e.node.size = e.size := by
  cases e <;> simp [Operand.node, size, Operand.size]

theorem size_lt_of_relation_field {r : Relation} {f : Field} {c : Node} (h : r.field f = some c) :
    c.size < r.size := by
  cases r <;> cases f <;> simp [Relation.field] at h <;> subst h <;>
    simp only [size, Relation.size, Header.size, DirectionSet.size, AliasSet.size] <;> omega

/-- The child in any slot of any node is smaller than the node. -/
theorem size_lt_of_field {n c : Node} {f : Field} (h : n.field f = some c) : c.size < n.size := by
  cases n with
  | relation r => exact size_lt_of_relation_field h
  | function g =>
    cases g <;> cases f <;> simp [field] at h <;> subst h <;>
      rw [size_operand] <;> simp only [size, Function.size] <;> omega
  | direction d => cases f <;> simp [field] at h; subst h; simp [size, Direction.size]
  | _ => cases f <;> simp [field] at h

/-- Every item of a collection is smaller than the collection. -/
theorem size_lt_of_mem_items {n c : Node} {items : List Node} (h : n.items = some items)
    (hc : c ∈ items) : c.size < n.size := by
  cases n <;> simp [Node.items] at h
  · subst h
    obtain ⟨a, ha, rfl⟩ := List.mem_map.1 hc
    have := List.length_pos_of_mem ha
    simp only [size, Header.size]; omega
  · subst h
    obtain ⟨d, hd, rfl⟩ := List.mem_map.1 hc
    have := List.length_pos_of_mem hd
    simp only [size, Direction.size, DirectionSet.size]; omega

theorem size_lt_extensionsSize {x : String × Operand} {l : List (String × Operand)} (h : x ∈ l) :
    x.2.size < extensionsSize l := by
  induction l with
  | nil => cases h
  | cons y rest ih =>
    rcases List.mem_cons.1 h with rfl | h
    · simp only [extensionsSize]; omega
    · have := ih h; simp only [extensionsSize]; omega

/-- Every expression of an extension is smaller than the extension. -/
theorem size_lt_of_mem_extensions {n : Node} {l : List (String × Operand)}
    (h : n.extensions = some l) {x : String × Operand} (hx : x ∈ l) : x.2.node.size < n.size := by
  cases n <;> simp [extensions] at h
  rename_i r
  cases r <;> simp at h
  subst h
  have := size_lt_extensionsSize hx
  rw [size_operand]; simp only [size, Relation.size]; omega

/-! ## Accessors that carry the bound -/

/-- A node smaller than `n`. -/
abbrev Smaller (n : Node) := { c : Node // c.size < n.size }

/-- The child in a slot. -/
def child? (n : Node) (f : Field) : Option (Smaller n) :=
  match h : n.field f with
  | some c => some ⟨c, size_lt_of_field h⟩
  | none => none

/-- The items of a collection. -/
def smallerItems? (n : Node) : Option (List (Smaller n)) :=
  match h : n.items with
  | some items => some (items.attach.map fun c => ⟨c.1, size_lt_of_mem_items h c.2⟩)
  | none => none

/-- The named expressions of an extension. -/
def smallerExtensions? (n : Node) : Option (List (String × Smaller n)) :=
  match h : n.extensions with
  | some l => some (l.attach.map fun x => (x.1.1, ⟨x.1.2.node, size_lt_of_mem_extensions h x.2⟩))
  | none => none

end Node

end RelAlg
