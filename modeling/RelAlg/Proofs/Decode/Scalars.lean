import RelAlg.Proofs.Decode.Form
import RelAlg.Node.Basic

/-!
# The scalar literals of a tree

The scalars of a tree in the order in which its document has them, those inside of arrays included.

* `Relation.scalars`, `Function.scalars` and so on: the scalars;
* `Relation.scalars_eq`, `Function.scalars_eq`    : field by field, in declaration order;
* `Relation.scalars_induction`                    : induction on relations whose scalars
  satisfy a condition.
-/

namespace RelAlg

/-! ## Scalars -/

mutual

def Literal.scalars : Literal → List Literal
  | .array items => Literal.scalarsAll items
  | l => [l]

def Literal.scalarsAll : List Literal → List Literal
  | [] => []
  | l :: rest => Literal.scalars l ++ Literal.scalarsAll rest

end

mutual

def Operand.scalars : Operand → List Literal
  | .attr _ => []
  | .function f => Function.scalars f
  | .literal l => l.scalars

def Function.scalars : Function → List Literal
  | .binary _ left right => Operand.scalars left ++ Operand.scalars right
  | .unary _ operand => Operand.scalars operand
  | .tautology => []
  | .contradiction => []

end

def Relation.scalars : Relation → List Literal
  | .base _ _ => []
  | .materialized _ tuples => tuples.flatMap Literal.scalarsAll
  | .order operand _ | .limit operand _ | .offset operand _ | .reverse operand
  | .projection operand _ | .rename operand _ => operand.scalars
  | .deletion operand other | .insertion operand other => operand.scalars ++ other.scalars
  | .combine _ left right => left.scalars ++ right.scalars
  | .restriction operand predicate => operand.scalars ++ predicate.scalars
  | .extension operand extensions => operand.scalars ++ extensions.flatMap fun x => x.2.scalars
  | .summarization operand per => operand.scalars ++ per.scalars

def Node.scalars : Node → List Literal
  | .relation r => r.scalars
  | .function f => f.scalars
  | .literal l => l.scalars
  | .attr _ | .header _ | .direction _ | .directionSet _ | .aliases _ | .count _ => []

/-! ## Field by field -/

/-- The scalars of a field. -/
def RelationField.scalars : (s : RelationField) → s.Type → List Literal
  | .tuples, ts => ts.flatMap Literal.scalarsAll
  | .predicate, f => f.scalars
  | .extensions, es => es.flatMap fun x => x.2.scalars
  | .operand, r | .other, r | .left, r | .right, r | .summarizePer, r => r.scalars
  | .name, _ | .header, _ | .directions, _ | .limit, _ | .offset, _ | .op, _ | .aliases, _ => []

theorem RelationField.scalars_of_relation? {s : RelationField} {v : s.Type} {r : Relation}
    (h : s.relation? v = some r) : s.scalars v = r.scalars := by
  cases s <;> cases h <;> rfl

/-- The scalars of a field of a function. -/
def FunctionField.scalars : (s : FunctionField) → s.Type → List Literal
  | .binaryOp, _ | .unaryOp, _ => []
  | .left, e | .right, e | .operand, e => e.scalars

theorem Relation.scalars_eq (r : Relation) :
    r.scalars = r.parts.flatMap fun p => p.1.scalars p.2 := by
  cases r <;> simp [Relation.scalars, Relation.parts, RelationField.scalars]

theorem Function.scalars_eq (f : Function) :
    f.scalars = f.parts.flatMap fun p => p.1.scalars p.2 := by
  cases f <;> simp [Function.scalars, Function.parts, FunctionField.scalars]

/-! ## Induction -/

/-- What holds of a relation if the scalars of its fields satisfy `q` and it holds of the relations
in its fields, holds of every relation whose scalars satisfy `q`. -/
theorem Relation.scalars_induction {q : Literal → Prop} {motive : Relation → Prop}
    (step : ∀ r : Relation, (∀ p ∈ r.parts, (∀ l ∈ p.1.scalars p.2, q l) ∧
      ∀ s, p.1.relation? p.2 = some s → motive s) → motive r)
    (r : Relation) (h : ∀ l ∈ r.scalars, q l) : motive r := by
  induction r using Relation.parts_induction with
  | step r ih =>
    rw [Relation.scalars_eq] at h
    refine step r fun p hp => ?_
    have hpart : ∀ l ∈ p.1.scalars p.2, q l := fun l hl => h l (List.mem_flatMap.2 ⟨p, hp, hl⟩)
    exact ⟨hpart, fun s hs => ih p hp s hs (RelationField.scalars_of_relation? hs ▸ hpart)⟩

end RelAlg
