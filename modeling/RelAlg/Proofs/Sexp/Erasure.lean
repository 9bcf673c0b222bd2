import RelAlg.Proofs.Sexp.Translation

/-!
# What the canonical s-expression forgets

An attribute in reference position, that is an operand of a function, the target of a sort
direction or a member of a projection header, shows its name only.  Erasing puts one fixed kind
in these places.  The headers that declare attributes, those of base and materialized relations,
keep their kinds.

* `Relation.erased`, `Function.erased` and so on: the tree without the kinds of its references;
* `Relation.every`, `Function.every`           : a condition on every scalar literal of a tree.
-/

namespace RelAlg

/-! ## Erasing -/

/-- The attribute with a fixed kind in place of its own. -/
def Attribute.erased (a : Attribute) : Attribute := ⟨a.name, .object⟩

def Header.erased (h : Header) : Header := ⟨h.attributes.map Attribute.erased⟩

def Direction.erased (d : Direction) : Direction := ⟨d.order, d.attr.erased⟩

def DirectionSet.erased (s : DirectionSet) : DirectionSet := ⟨s.directions.map Direction.erased⟩

mutual

def Operand.erased : Operand → Operand
  | .attr a => .attr a.erased
  | .function f => .function (Function.erased f)
  | .literal l => .literal l

def Function.erased : Function → Function
  | .binary op left right => .binary op (Operand.erased left) (Operand.erased right)
  | .unary op operand => .unary op (Operand.erased operand)
  | .tautology => .tautology
  | .contradiction => .contradiction

end

def Relation.erased : Relation → Relation
  | .base name header => .base name header
  | .materialized header tuples => .materialized header tuples
  | .order operand directions => .order operand.erased directions.erased
  | .limit operand n => .limit operand.erased n
  | .offset operand n => .offset operand.erased n
  | .reverse operand => .reverse operand.erased
  | .deletion operand other => .deletion operand.erased other.erased
  | .insertion operand other => .insertion operand.erased other.erased
  | .combine op left right => .combine op left.erased right.erased
  | .projection operand header => .projection operand.erased header.erased
  | .restriction operand predicate => .restriction operand.erased predicate.erased
  | .extension operand extensions =>
    .extension operand.erased (extensions.map fun x => (x.1, x.2.erased))
  | .rename operand aliases => .rename operand.erased aliases
  | .summarization operand per => .summarization operand.erased per.erased

/-! ## Conditions on literals -/

/-- Every literal but an array. -/
def Literal.isScalar : Literal → Bool
  | .array _ => false
  | _ => true

section Every

variable (p : Literal → Bool)

mutual

/-- Whether `p` holds of every scalar in a literal. -/
def Literal.every : Literal → Bool
  | .array items => Literal.everyAll items
  | .null => p .null
  | .boolean b => p (.boolean b)
  | .integer n => p (.integer n)
  | .unsigned n => p (.unsigned n)
  | .float x => p (.float x)
  | .string s => p (.string s)

def Literal.everyAll : List Literal → Bool
  | [] => true
  | l :: rest => Literal.every l && Literal.everyAll rest

end

mutual

/-- Whether `p` holds of every scalar literal in an operand. -/
def Operand.every : Operand → Bool
  | .attr _ => true
  | .function f => Function.every f
  | .literal l => l.every p

/-- Whether `p` holds of every scalar literal in a function. -/
def Function.every : Function → Bool
  | .binary _ left right => Operand.every left && Operand.every right
  | .unary _ operand => Operand.every operand
  | .tautology => true
  | .contradiction => true

end

/-- Whether `p` holds of every scalar literal in a relation. -/
def Relation.every : Relation → Bool
  | .base _ _ => true
  | .materialized _ tuples => tuples.all (Literal.everyAll p)
  | .order operand _ | .limit operand _ | .offset operand _ | .reverse operand
  | .projection operand _ | .rename operand _ => operand.every
  | .deletion operand other | .insertion operand other => operand.every && other.every
  | .combine _ left right => left.every && right.every
  | .restriction operand predicate => operand.every && predicate.every p
  | .extension operand extensions => operand.every && extensions.all fun x => x.2.every p
  | .summarization operand per => operand.every && per.every

variable {p}

theorem Literal.every_of_isScalar {l : Literal} (h : l.isScalar = true) : l.every p = p l := by
  cases l <;> first | rfl | cases h

mutual

/-- A condition that no literal fails holds throughout. -/
theorem Literal.every_of_forall (h : ∀ l, p l = true) : ∀ l : Literal, l.every p = true
  | .array items => Literal.everyAll_of_forall h items
  | .null | .boolean _ | .integer _ | .unsigned _ | .float _ | .string _ => h _

theorem Literal.everyAll_of_forall (h : ∀ l, p l = true) :
    ∀ l : List Literal, Literal.everyAll p l = true
  | [] => rfl
  | l :: rest => by
    rw [Literal.everyAll, Literal.every_of_forall h l, Literal.everyAll_of_forall h rest]; rfl

end

mutual

theorem Operand.every_of_forall (h : ∀ l, p l = true) : ∀ e : Operand, e.every p = true
  | .attr _ => rfl
  | .function f => Function.every_of_forall h f
  | .literal l => Literal.every_of_forall h l

theorem Function.every_of_forall (h : ∀ l, p l = true) : ∀ f : Function, f.every p = true
  | .binary _ left right => by
    rw [Function.every, Operand.every_of_forall h left, Operand.every_of_forall h right]; rfl
  | .unary _ operand => Operand.every_of_forall h operand
  | .tautology => rfl
  | .contradiction => rfl

end

theorem Relation.every_of_forall (h : ∀ l, p l = true) (r : Relation) : r.every p = true := by
  induction r <;>
    simp_all [Relation.every, Function.every_of_forall h, Operand.every_of_forall h,
      Literal.everyAll_of_forall h]

end Every

end RelAlg
