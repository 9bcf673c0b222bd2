import RelAlg.Node.Basic
import RelAlg.Proofs.Sexp.Erasure

/-!
# When trees are numerically equal

Numeric equality is no equality of trees: it takes the two zeros for one number and a NaN for
different from itself.  This is all that sets it apart.  Two trees are numerically equal exactly
when they are the same tree once their zeros are written in one way and neither of them holds a NaN,
so it is symmetric and transitive, and a tree equals itself exactly when it holds no NaN.

* `Binary64.mergeZeros`, `Relation.mergeZeros` and so on: both zeros written as the positive one;
* `Literal.notNaN`, `Node.every`                        : a condition on every scalar literal;
* `Binary64.numericEq_iff`, `Relation.numericEq_iff`, `Node.numericEq_iff`: numeric
  equality as equality.
-/

namespace RelAlg

/-! ## One zero -/

/-- The positive zero for both zeros, any other value as it is. -/
def Binary64.mergeZeros (x : Binary64) : Binary64 := if x.isZero then ⟨0⟩ else x

theorem Binary64.mergeZeros_of_isZero {x : Binary64} (h : x.isZero = true) : x.mergeZeros = ⟨0⟩ :=
  if_pos h

theorem Binary64.mergeZeros_of_not_isZero {x : Binary64} (h : x.isZero = false) :
    x.mergeZeros = x :=
  if_neg (by simp [h])

/-- Numbers compare as equal when they are the same up to the sign of a zero and none of them
is a NaN. -/
theorem Binary64.numericEq_iff {x y : Binary64} :
    x.numericEq y = true ↔ x.mergeZeros = y.mergeZeros ∧ x.isNaN = false ∧ y.isNaN = false := by
  have hzero : (⟨0⟩ : Binary64).isZero = true := by decide
  have hmerge : (x == y || (x.isZero && y.isZero)) = true ↔ x.mergeZeros = y.mergeZeros := by
    cases hx : x.isZero with
    | true =>
      cases hy : y.isZero with
      | true => simp [mergeZeros_of_isZero hx, mergeZeros_of_isZero hy]
      | false =>
        have hne : x ≠ y := by rintro rfl; simp [hx] at hy
        have hne' : ⟨0⟩ ≠ y := by rintro rfl; simp [hzero] at hy
        simp [mergeZeros_of_isZero hx, mergeZeros_of_not_isZero hy, hne, hne']
    | false =>
      cases hy : y.isZero with
      | true =>
        have hne : x ≠ y := by rintro rfl; simp [hx] at hy
        have hne' : x ≠ ⟨0⟩ := by rintro rfl; simp [hzero] at hx
        simp [mergeZeros_of_not_isZero hx, mergeZeros_of_isZero hy, hne, hne']
      | false => simp [mergeZeros_of_not_isZero hx, mergeZeros_of_not_isZero hy]
  simp only [numericEq, Bool.and_eq_true, hmerge, Bool.not_eq_true']
  tauto

mutual

def Literal.mergeZeros : Literal → Literal
  | .float x => .float x.mergeZeros
  | .array items => .array (Literal.mergeZerosAll items)
  | .null => .null
  | .boolean b => .boolean b
  | .integer n => .integer n
  | .unsigned n => .unsigned n
  | .string s => .string s

def Literal.mergeZerosAll : List Literal → List Literal
  | [] => []
  | l :: rest => l.mergeZeros :: Literal.mergeZerosAll rest

end

mutual

def Operand.mergeZeros : Operand → Operand
  | .attr a => .attr a
  | .function f => .function (Function.mergeZeros f)
  | .literal l => .literal l.mergeZeros

def Function.mergeZeros : Function → Function
  | .binary op left right => .binary op (Operand.mergeZeros left) (Operand.mergeZeros right)
  | .unary op operand => .unary op (Operand.mergeZeros operand)
  | .tautology => .tautology
  | .contradiction => .contradiction

end

def Relation.mergeZeros : Relation → Relation
  | .base name header => .base name header
  | .materialized header tuples => .materialized header (tuples.map Literal.mergeZerosAll)
  | .order operand directions => .order operand.mergeZeros directions
  | .limit operand n => .limit operand.mergeZeros n
  | .offset operand n => .offset operand.mergeZeros n
  | .reverse operand => .reverse operand.mergeZeros
  | .deletion operand other => .deletion operand.mergeZeros other.mergeZeros
  | .insertion operand other => .insertion operand.mergeZeros other.mergeZeros
  | .combine op left right => .combine op left.mergeZeros right.mergeZeros
  | .projection operand header => .projection operand.mergeZeros header
  | .restriction operand predicate => .restriction operand.mergeZeros predicate.mergeZeros
  | .extension operand extensions =>
    .extension operand.mergeZeros (extensions.map fun x => (x.1, x.2.mergeZeros))
  | .rename operand aliases => .rename operand.mergeZeros aliases
  | .summarization operand per => .summarization operand.mergeZeros per.mergeZeros

def Node.mergeZeros : Node → Node
  | .relation r => .relation r.mergeZeros
  | .function f => .function f.mergeZeros
  | .literal l => .literal l.mergeZeros
  | n => n

/-! ## No NaN -/

/-- Any scalar but a float that is a NaN. -/
def Literal.notNaN : Literal → Bool
  | .float x => !x.isNaN
  | _ => true

/-- Whether `p` holds of every scalar literal in a node. -/
def Node.every (p : Literal → Bool) : Node → Bool
  | .relation r => r.every p
  | .function f => f.every p
  | .literal l => l.every p
  | _ => true

/-! ## Literals -/

mutual

theorem Literal.numericEq_iff : ∀ {l m : Literal}, l.numericEq m = true ↔
    l.mergeZeros = m.mergeZeros ∧ l.every notNaN = true ∧ m.every notNaN = true
  | .float x, m => by
    cases m with
    | float y => simp [numericEq, mergeZeros, every, notNaN, Binary64.numericEq_iff]
    | _ => simp [numericEq, mergeZeros]
  | .array ls, m => by
    cases m with
    | array ms => simp [numericEq, mergeZeros, every, @numericEqAll_iff ls ms]
    | _ => simp [numericEq, mergeZeros]
  | .null, m => by cases m <;> simp [numericEq, mergeZeros, every, notNaN]
  | .boolean _, m => by cases m <;> simp [numericEq, mergeZeros, every, notNaN]
  | .integer _, m => by cases m <;> simp [numericEq, mergeZeros, every, notNaN]
  | .unsigned _, m => by cases m <;> simp [numericEq, mergeZeros, every, notNaN]
  | .string _, m => by cases m <;> simp [numericEq, mergeZeros, every, notNaN]

theorem Literal.numericEqAll_iff : ∀ {ls ms : List Literal}, numericEqAll ls ms = true ↔
    mergeZerosAll ls = mergeZerosAll ms ∧ everyAll notNaN ls = true ∧ everyAll notNaN ms = true
  | [], [] => by simp [numericEqAll, mergeZerosAll, everyAll]
  | [], _ :: _ => by simp [numericEqAll, mergeZerosAll]
  | _ :: _, [] => by simp [numericEqAll, mergeZerosAll]
  | l :: ls, m :: ms => by
    have hhead := @Literal.numericEq_iff l m
    have htail := @Literal.numericEqAll_iff ls ms
    simp only [numericEqAll, mergeZerosAll, everyAll, Bool.and_eq_true, List.cons.injEq, hhead,
      htail]
    tauto

end

theorem tuples_numericEq_iff {ts us : List Tuple} :
    Literal.numericEqAll (ts.map .array) (us.map .array) = true ↔
      ts.map Literal.mergeZerosAll = us.map Literal.mergeZerosAll ∧
      ts.all (Literal.everyAll Literal.notNaN) = true ∧
      us.all (Literal.everyAll Literal.notNaN) = true := by
  have hmerge : ∀ l : List Tuple, Literal.mergeZerosAll (l.map .array)
      = (l.map Literal.mergeZerosAll).map .array := by
    intro l
    induction l with
    | nil => rfl
    | cons t rest ih => simp only [List.map_cons, Literal.mergeZerosAll, Literal.mergeZeros, ih]
  have hevery : ∀ l : List Tuple, Literal.everyAll Literal.notNaN (l.map .array)
      = l.all (Literal.everyAll Literal.notNaN) := by
    intro l
    induction l with
    | nil => rfl
    | cons t rest ih =>
      simp only [List.map_cons, Literal.everyAll, Literal.every, List.all_cons, ih]
  rw [Literal.numericEqAll_iff, hmerge, hmerge, hevery, hevery,
    (List.map_injective_iff.2 fun _ _ h => Literal.array.inj h).eq_iff]

/-! ## Functions -/

mutual

theorem Operand.numericEq_iff : ∀ {d e : Operand}, d.numericEq e = true ↔
    d.mergeZeros = e.mergeZeros ∧ d.every Literal.notNaN = true ∧ e.every Literal.notNaN = true
  | .attr a, e => by cases e <;> simp [Operand.numericEq, Operand.mergeZeros, Operand.every]
  | .function f, e => by
    cases e with
    | function g =>
      simp [Operand.numericEq, Operand.mergeZeros, Operand.every, @Function.numericEq_iff f g]
    | _ => simp [Operand.numericEq, Operand.mergeZeros]
  | .literal l, e => by
    cases e with
    | literal m =>
      simp [Operand.numericEq, Operand.mergeZeros, Operand.every, Literal.numericEq_iff]
    | _ => simp [Operand.numericEq, Operand.mergeZeros]

theorem Function.numericEq_iff : ∀ {f g : Function}, f.numericEq g = true ↔
    f.mergeZeros = g.mergeZeros ∧ f.every Literal.notNaN = true ∧ g.every Literal.notNaN = true
  | .binary op left right, g => by
    cases g with
    | binary op' left' right' =>
      have hleft := @Operand.numericEq_iff left left'
      have hright := @Operand.numericEq_iff right right'
      simp only [Function.numericEq, Function.mergeZeros, Function.every, Bool.and_eq_true,
        beq_iff_eq, Function.binary.injEq, hleft, hright]
      tauto
    | _ => simp [Function.numericEq, Function.mergeZeros]
  | .unary op operand, g => by
    cases g with
    | unary op' operand' =>
      have hoperand := @Operand.numericEq_iff operand operand'
      simp only [Function.numericEq, Function.mergeZeros, Function.every, Bool.and_eq_true,
        beq_iff_eq, Function.unary.injEq, hoperand]
      tauto
    | _ => simp [Function.numericEq, Function.mergeZeros]
  | .tautology, g => by cases g <;> simp [Function.numericEq, Function.mergeZeros, Function.every]
  | .contradiction, g => by
    cases g <;> simp [Function.numericEq, Function.mergeZeros, Function.every]

end

theorem extensionsNumericEq_iff {xs ys : List (String × Operand)} :
    extensionsNumericEq xs ys = true ↔
      (xs.map fun x => (x.1, x.2.mergeZeros)) = (ys.map fun y => (y.1, y.2.mergeZeros)) ∧
      (xs.all fun x => x.2.every Literal.notNaN) = true ∧
      (ys.all fun y => y.2.every Literal.notNaN) = true := by
  induction xs generalizing ys with
  | nil => cases ys <;> simp [extensionsNumericEq]
  | cons x xs ih =>
    cases ys with
    | nil => simp [extensionsNumericEq]
    | cons y ys =>
      simp only [extensionsNumericEq, Bool.and_eq_true, beq_iff_eq, Operand.numericEq_iff, ih,
        List.map_cons, List.cons.injEq, Prod.mk.injEq, List.all_cons]
      tauto

/-! ## Relations and nodes -/

/-- Relations are numerically equal when they are the same up to the signs of zeros and
hold no NaN. -/
theorem Relation.numericEq_iff {a b : Relation} : a.numericEq b = true ↔
    a.mergeZeros = b.mergeZeros ∧ a.every Literal.notNaN = true ∧
      b.every Literal.notNaN = true := by
  induction a generalizing b with
  | base name header =>
    cases b with
    | base name' header' => simp [numericEq, mergeZeros, every]
    | _ => simp [numericEq, mergeZeros]
  | materialized header tuples =>
    cases b with
    | materialized header' tuples' =>
      simp only [numericEq, mergeZeros, every, Bool.and_eq_true, beq_iff_eq, materialized.injEq,
        tuples_numericEq_iff]
      tauto
    | _ => simp [numericEq, mergeZeros]
  | order operand directions ih | limit operand n ih | offset operand n ih
  | projection operand header ih | rename operand aliases ih =>
    cases b <;> simp [numericEq, mergeZeros, every, ih]
    all_goals tauto
  | reverse operand ih =>
    cases b <;> simp [numericEq, mergeZeros, every, ih]
  | deletion operand other ih₁ ih₂ | insertion operand other ih₁ ih₂
  | summarization operand per ih₁ ih₂
  | combine op left right ih₁ ih₂ =>
    cases b <;> simp [numericEq, mergeZeros, every, ih₁, ih₂]
    all_goals tauto
  | restriction operand predicate ih =>
    cases b with
    | restriction operand' predicate' =>
      simp only [numericEq, mergeZeros, every, Bool.and_eq_true, restriction.injEq, ih,
        Function.numericEq_iff]
      tauto
    | _ => simp [numericEq, mergeZeros]
  | extension operand extensions ih =>
    cases b with
    | extension operand' extensions' =>
      simp only [numericEq, mergeZeros, every, Bool.and_eq_true, extension.injEq, ih,
        extensionsNumericEq_iff]
      tauto
    | _ => simp [numericEq, mergeZeros]

/-- Nodes are numerically equal when they are the same up to the signs of zeros and hold no NaN. -/
theorem Node.numericEq_iff {m n : Node} : m.numericEq n = true ↔
    m.mergeZeros = n.mergeZeros ∧ m.every Literal.notNaN = true ∧
      n.every Literal.notNaN = true := by
  cases m with
  | relation r =>
    cases n with
    | relation s => simp [numericEq, mergeZeros, every, Relation.numericEq_iff]
    | _ => simp [numericEq, mergeZeros]
  | function f =>
    cases n with
    | function g => simp [numericEq, mergeZeros, every, Function.numericEq_iff]
    | _ => simp [numericEq, mergeZeros]
  | literal l =>
    cases n with
    | literal k => simp [numericEq, mergeZeros, every, Literal.numericEq_iff]
    | _ => simp [numericEq, mergeZeros]
  | _ => cases n <;> simp [numericEq, mergeZeros, every]

end RelAlg
