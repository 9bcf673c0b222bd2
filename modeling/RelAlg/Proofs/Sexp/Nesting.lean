import Mathlib.Data.List.MinMax
import Mathlib.Order.Nat
import RelAlg.Proofs.Sexp.Failure

/-!
# How deep formatting goes

Which part of a node is formatted next is the value of a rule, and a rule may name any field.  What
it gets is nevertheless one of the nodes that its node is made of, so the nodes of nested calls
become smaller and lower from call to call.  Formatting therefore ends under every table, and no
more calls are open at a time than there are nodes on the longest way down the tree.

* `Node.components`                     : the nodes that a node is made of, one level down;
* `Node.height`                         : the number of nodes on the longest way down;
* `Node.HasPart.mem_components`         : slots, collections and extensions give components
  of the node;
* `Registry.Calls`                      : the parts that formatting a node really comes to format;
* `Registry.length_le_height`           : calls open inside each other are no more than the
  tree is high;
* `Sexp.ofNodeWithin`                   : formatting with room for a number of open calls;
* `Sexp.run_ofNodeWithin_eq_some_iff`   : how much room is enough;
* `ofNode_within_height`                : parts are smaller than their node, and its height
  is room enough.
-/

namespace RelAlg

/-! ## Components -/

namespace Literal

theorem size_le_sizeAll {l : Literal} {items : List Literal} (h : l ∈ items) :
    l.size ≤ sizeAll items := by
  induction items with
  | nil => cases h
  | cons k rest ih =>
    rw [sizeAll]
    rcases List.mem_cons.1 h with rfl | h
    · exact Nat.le_add_right _ _
    · exact Nat.le_trans (ih h) (Nat.le_add_left _ _)

/-- A value of a row is smaller than the rows. -/
theorem size_lt_sizeAll_rows {l : Literal} {tuples : List Tuple} (h : l ∈ tuples.flatten) :
    l.size < sizeAll (tuples.map .array) := by
  obtain ⟨t, ht, hl⟩ := List.mem_flatten.1 h
  have hrow : l.size ≤ sizeAll t := size_le_sizeAll hl
  have hrows : (array t).size ≤ sizeAll (tuples.map .array) :=
    size_le_sizeAll (List.mem_map_of_mem ht)
  rw [size] at hrows
  omega

end Literal

namespace Relation

/-- The nodes that a relation is made of, in the order of its declaration. -/
def components : Relation → List Node
  | .base _ header => [.header header]
  | .materialized header tuples => .header header :: tuples.flatten.map .literal
  | .order operand directions => [.relation operand, .directionSet directions]
  | .limit operand n | .offset operand n => [.relation operand, .count n]
  | .reverse operand => [.relation operand]
  | .deletion operand other | .insertion operand other => [.relation operand, .relation other]
  | .combine _ left right => [.relation left, .relation right]
  | .projection operand header => [.relation operand, .header header]
  | .restriction operand predicate => [.relation operand, .function predicate]
  | .extension operand extensions => .relation operand :: extensions.map fun x => x.2.node
  | .rename operand aliases => [.relation operand, .aliases aliases]
  | .summarization operand per => [.relation operand, .relation per]

theorem size_lt_of_mem_components {r : Relation} {c : Node} (h : c ∈ r.components) :
    c.size < r.size := by
  cases r with
  | base _ _ | reverse _ =>
    obtain rfl := List.mem_singleton.1 h
    simp only [Node.size, size]
    omega
  | order _ _ | limit _ _ | offset _ _ | deletion _ _ | insertion _ _ | combine _ _ _
  | projection _ _ | restriction _ _ | rename _ _ | summarization _ _ =>
    rcases List.mem_pair.1 h with rfl | rfl <;> simp only [Node.size, size] <;> omega
  | materialized header tuples =>
    rcases List.mem_cons.1 h with rfl | h
    · simp only [Node.size, size]
      omega
    · obtain ⟨l, hl, rfl⟩ := List.mem_map.1 h
      have hrows := Literal.size_lt_sizeAll_rows hl
      simp only [Node.size, size]
      omega
  | extension operand extensions =>
    rcases List.mem_cons.1 h with rfl | h
    · simp only [Node.size, size]
      omega
    · obtain ⟨x, hx, rfl⟩ := List.mem_map.1 h
      exact Node.size_lt_of_mem_extensions (n := .relation (.extension operand extensions)) rfl hx

theorem mem_components_of_field {r : Relation} {f : Field} {c : Node} (h : r.field f = some c) :
    c ∈ r.components := by
  cases r <;> cases f <;> cases h <;> simp [components]

end Relation

namespace Function

/-- The operands of a function. -/
def components : Function → List Node
  | .binary _ left right => [left.node, right.node]
  | .unary _ operand => [operand.node]
  | .tautology | .contradiction => []

theorem size_lt_of_mem_components {g : Function} {c : Node} (h : c ∈ g.components) :
    c.size < g.size := by
  cases g with
  | binary _ _ _ =>
    rcases List.mem_pair.1 h with rfl | rfl <;> rw [Node.size_operand, size] <;> omega
  | unary _ _ =>
    obtain rfl := List.mem_singleton.1 h
    rw [Node.size_operand, size]
    omega
  | tautology | contradiction => cases h

theorem mem_components_of_field {g : Function} {f : Field} {c : Node}
    (h : (Node.function g).field f = some c) : c ∈ g.components := by
  cases g <;> cases f <;> cases h <;> simp [components]

end Function

namespace Node

/-- The nodes that a node is made of, one level down. -/
def components : Node → List Node
  | relation r => r.components
  | function f => f.components
  | header h => h.attributes.map attr
  | direction d => [attr d.attr]
  | directionSet s => s.directions.map direction
  | literal (.array items) => items.map literal
  | attr _ | aliases _ | literal _ | count _ => []

/-- A component is smaller than the node. -/
theorem size_lt_of_mem_components {n c : Node} (h : c ∈ n.components) : c.size < n.size := by
  cases n with
  | relation r => exact Relation.size_lt_of_mem_components h
  | function f => exact Function.size_lt_of_mem_components h
  | header _ | directionSet _ => exact size_lt_of_mem_items rfl h
  | direction d => exact size_lt_of_field (f := .attr) (congrArg some (List.mem_singleton.1 h).symm)
  | literal l =>
    cases l with
    | array items =>
      obtain ⟨l, hl, rfl⟩ := List.mem_map.1 h
      have hitems := Literal.size_le_sizeAll hl
      simp only [size, Literal.size]
      omega
    | _ => cases h
  | attr _ | aliases _ | count _ => cases h

theorem mem_components_of_field {n c : Node} {f : Field} (h : n.field f = some c) :
    c ∈ n.components := by
  cases n with
  | relation r => exact Relation.mem_components_of_field h
  | function g => exact Function.mem_components_of_field h
  | direction d => cases f <;> cases h; exact List.mem_singleton_self _
  | _ => cases f <;> cases h

theorem mem_components_of_mem_items {n c : Node} {items : List Node} (h : n.items = some items)
    (hc : c ∈ items) : c ∈ n.components := by
  cases n with
  | header _ | directionSet _ =>
    cases h
    exact hc
  | _ => cases h

theorem mem_components_of_mem_extensions {n : Node} {l : List (String × Operand)}
    (h : n.extensions = some l) {x : String × Operand} (hx : x ∈ l) : x.2.node ∈ n.components := by
  cases n with
  | relation r =>
    cases r with
    | extension operand _ =>
      cases h
      exact List.mem_cons_of_mem _ (List.mem_map_of_mem hx)
    | _ => cases h
  | _ => cases h

/-- What stands in a slot, among the items or beside a name of an extension is a component. -/
theorem HasPart.mem_components {n c : Node} (h : n.HasPart c) : c ∈ n.components := by
  cases h with
  | field h => exact mem_components_of_field h
  | item h hc => exact mem_components_of_mem_items h hc
  | expression h hx => exact mem_components_of_mem_extensions h hx

/-! ## Height -/

/-- The number of nodes on the longest way from `n` down. -/
def height (n : Node) : Nat := 1 + (n.components.attach.map fun c => height c.1).foldr max 0
termination_by n.size
decreasing_by exact size_lt_of_mem_components c.2

theorem height_eq (n : Node) : n.height = 1 + (n.components.map height).foldr max 0 := by
  rw [height, List.attach_map_val]

/-- A node is higher than each of its components. -/
theorem height_lt_of_mem_components {n c : Node} (h : c ∈ n.components) : c.height < n.height := by
  have hmax : c.height ≤ (n.components.map height).foldr max 0 :=
    List.le_max_of_le (List.mem_map_of_mem h) (Nat.le_refl _)
  rw [n.height_eq]
  omega

/-- A part is lower than the node. -/
theorem HasPart.height_lt {n c : Node} (h : n.HasPart c) : c.height < n.height :=
  height_lt_of_mem_components h.mem_components

end Node

/-! ## Open calls -/

namespace Registry

/-- Formatting `n` comes to format its part `c`: `n` has all the fields that its rule reads, and the
parts in front of `c` are formatted without an error. -/
def Calls (r : Registry) (n c : Node) : Prop :=
  ¬r.Malformed n ∧ ∃ before after, r.parts n = before ++ c :: after ∧
    ∀ b ∈ before, ∃ s, Sexp.ofNode r b = .ok s

variable {r : Registry} {n c : Node} {inner : List Node}

theorem Calls.hasPart (h : r.Calls n c) : n.HasPart c := by
  obtain ⟨-, before, after, hparts, -⟩ := h
  refine hasPart_of_mem_parts (r := r) ?_
  rw [hparts]
  exact List.mem_append_right before List.mem_cons_self

/-- Calls of which each is open inside the one in front of it are no more than the tree is high. -/
theorem length_le_height (h : (n :: inner).IsChain r.Calls) : (n :: inner).length ≤ n.height := by
  induction inner generalizing n with
  | nil =>
    rw [n.height_eq, List.length_singleton]
    exact Nat.le_add_right 1 _
  | cons c rest ih =>
    obtain ⟨hc, hrest⟩ := List.isChain_cons_cons.1 h
    exact Nat.lt_of_le_of_lt (ih hrest) hc.hasPart.height_lt

end Registry

namespace Sexp

/-- Formatting where at most `d` calls may be open at a time, `none` if that is too few.  It
goes by the equation of `ofNode` and counts the open calls, so it needs no evidence that
parts are smaller. -/
def ofNodeWithin (r : Registry) : Nat → Node → ExceptT MissingField Option Sexp
  | 0, _ => ExceptT.mk none
  | d + 1, n =>
    match r.ruleOf? n, r.fault? n with
    | none, _ => return n.passThrough
    | some _, some e => throw e
    | some rule, none => rule.layout n <$> (r.parts n).mapM (ofNodeWithin r d)

variable {r : Registry} {n : Node} {d : Nat}

/-- Formatting with little room gives what it gives with any room, or nothing. -/
theorem run_ofNodeWithin_eq_none_or :
    (ofNodeWithin r d n).run = none ∨ (ofNodeWithin r d n).run = some (ofNode r n) := by
  induction d generalizing n with
  | zero => exact .inl rfl
  | succ d ih =>
    rw [ofNodeWithin, ofNode_eq]
    cases r.ruleOf? n with
    | none => exact .inr rfl
    | some rule =>
      cases r.fault? n with
      | some e => exact .inr rfl
      | none =>
        rw [ExceptT.run_map]
        rcases run_mapM_eq_none_or fun c (_ : c ∈ r.parts n) => ih (n := c) with hmap | hmap
        · exact .inl (by rw [hmap]; rfl)
        · exact .inr (by rw [hmap]; rfl)

/-- There is too little room for a node if there is for one that it calls for. -/
theorem run_ofNodeWithin_succ_eq_none_iff :
    (ofNodeWithin r (d + 1) n).run = none ↔ ∃ c, r.Calls n c ∧ (ofNodeWithin r d c).run = none := by
  rw [ofNodeWithin]
  cases hrule : r.ruleOf? n with
  | none =>
    refine ⟨nofun, ?_⟩
    rintro ⟨c, ⟨-, before, after, hparts, -⟩, -⟩
    rw [Registry.parts_of_no_rule hrule] at hparts
    simp at hparts
  | some rule =>
    simp only [Registry.Calls, ← Registry.fault?_eq_none_iff]
    cases hfault : r.fault? n with
    | some e => exact ⟨nofun, fun ⟨_, ⟨h, _⟩, _⟩ => nomatch h⟩
    | none =>
      rw [ExceptT.run_map, Option.map_eq_map, Option.map_eq_none_iff,
        run_mapM_eq_none_iff fun _ _ => run_ofNodeWithin_eq_none_or]
      constructor
      · rintro ⟨before, c, after, hparts, hbefore, hc⟩
        exact ⟨c, ⟨rfl, before, after, hparts, hbefore⟩, hc⟩
      · rintro ⟨c, ⟨-, before, after, hparts, hbefore⟩, hc⟩
        exact ⟨before, c, after, hparts, hbefore, hc⟩

/-- There is too little room exactly when more calls come to be open at a time. -/
theorem run_ofNodeWithin_eq_none_iff : (ofNodeWithin r d n).run = none ↔
    ∃ inner, (n :: inner).IsChain r.Calls ∧ d < (n :: inner).length := by
  induction d generalizing n with
  | zero => exact ⟨fun _ => ⟨[], .singleton n, Nat.zero_lt_one⟩, fun _ => rfl⟩
  | succ d ih =>
    rw [run_ofNodeWithin_succ_eq_none_iff]
    constructor
    · rintro ⟨c, hc, hroom⟩
      obtain ⟨inner, hinner, hlong⟩ := ih.1 hroom
      exact ⟨c :: inner, .cons_cons hc hinner, Nat.succ_lt_succ hlong⟩
    · rintro ⟨inner, hinner, hlong⟩
      cases inner with
      | nil => exact absurd (Nat.lt_of_succ_lt_succ hlong) (Nat.not_lt_zero d)
      | cons c inner =>
        obtain ⟨hc, hinner⟩ := List.isChain_cons_cons.1 hinner
        exact ⟨c, hc, ih.2 ⟨inner, hinner, Nat.lt_of_succ_lt_succ hlong⟩⟩

/-- There is room enough exactly when no more calls come to be open at a time. -/
theorem run_ofNodeWithin_eq_some_iff : (ofNodeWithin r d n).run = some (ofNode r n) ↔
    ∀ inner, (n :: inner).IsChain r.Calls → (n :: inner).length ≤ d := by
  constructor
  · intro hsome inner hinner
    by_contra hlong
    have hnone := run_ofNodeWithin_eq_none_iff.2 ⟨inner, hinner, Nat.lt_of_not_le hlong⟩
    rw [hnone] at hsome
    cases hsome
  · intro hshort
    refine run_ofNodeWithin_eq_none_or.resolve_left fun hnone => ?_
    obtain ⟨inner, hinner, hlong⟩ := run_ofNodeWithin_eq_none_iff.1 hnone
    exact absurd (hshort inner hinner) (Nat.not_le_of_lt hlong)

end Sexp

/-- A part of a node, whichever field gives it, is one of the components of the node and smaller.
Under every table formatting ends, and the height of the tree is room enough for the calls that are
open at a time; any other room is enough exactly if no more calls come to be open. -/
theorem ofNode_within_height (r : Registry) (n : Node) :
    (∀ c, n.HasPart c → c ∈ n.components ∧ c.size < n.size) ∧
    (∀ d, n.height ≤ d → (Sexp.ofNodeWithin r d n).run = some (Sexp.ofNode r n)) ∧
    ∀ d, (Sexp.ofNodeWithin r d n).run = some (Sexp.ofNode r n) ↔
      ∀ inner, (n :: inner).IsChain r.Calls → (n :: inner).length ≤ d := by
  refine ⟨fun c hc => ⟨hc.mem_components, hc.size_lt⟩, fun d hd => ?_,
    fun d => Sexp.run_ofNodeWithin_eq_some_iff⟩
  exact Sexp.run_ofNodeWithin_eq_some_iff.2 fun inner h =>
    Nat.le_trans (Registry.length_le_height h) hd

/-- A table whose only rule shows the operand of an extension twice and leaves out its
expressions. -/
def operandTwice : Registry :=
  ⟨[(.extension, .binary "twice" .operand .operand)], List.pairwise_singleton _ _⟩

/-- A base relation with one named expression. -/
def oneExpression : Relation := (Relation.base "a" ⟨[]⟩).extend [("x", .literal .null)]

/-- The expression is smaller than the extension although no rule leads to it.  The call for the
operand is open inside that for the extension, so one open call is too few, and three are enough as
the tree is three nodes high. -/
theorem ofNode_within_height_extension :
    (Node.relation oneExpression).HasPart (.literal .null) ∧
    (Node.literal .null).size < (Node.relation oneExpression).size ∧
    (Node.relation oneExpression).height = 3 ∧
    (Sexp.ofNodeWithin operandTwice 3 (.relation oneExpression)).run = some (.ok (.list
      [.symbol "twice", .node (.relation (.base "a" ⟨[]⟩)), .node (.relation (.base "a" ⟨[]⟩))])) ∧
    operandTwice.Calls (.relation oneExpression) (.relation (.base "a" ⟨[]⟩)) ∧
    (Sexp.ofNodeWithin operandTwice 1 (.relation oneExpression)).run
      ≠ some (Sexp.ofNode operandTwice (.relation oneExpression)) := by
  obtain ⟨hsmaller, hroom, hexact⟩ := ofNode_within_height operandTwice (.relation oneExpression)
  have hexpression : (Node.relation oneExpression).HasPart (.literal .null) :=
    .expression rfl (List.mem_singleton_self ("x", Operand.literal .null))
  have hheight : (Node.relation oneExpression).height = 3 := by
    simp [Node.height_eq, Node.components, Relation.components, Operand.node, oneExpression,
      Relation.extend]
  have hrule : operandTwice.rule? .extension = some (.binary "twice" .operand .operand) := by decide
  have hbase : Sexp.ofNode operandTwice (.relation (.base "a" ⟨[]⟩))
      = .ok (.node (.relation (.base "a" ⟨[]⟩))) := Sexp.ofNode_of_no_rule (by decide)
  have hcalls : operandTwice.Calls (.relation oneExpression) (.relation (.base "a" ⟨[]⟩)) :=
    ⟨Registry.fault?_eq_none_iff.1 (by decide), [], [.relation (.base "a" ⟨[]⟩)],
      Registry.parts_of_rule ((Registry.ruleOf?_of_kind rfl).trans hrule), List.forall_mem_nil _⟩
  refine ⟨hexpression, (hsmaller _ hexpression).2, hheight, ?_, hcalls, fun hone => ?_⟩
  · rw [hroom 3 (Nat.le_of_eq hheight)]
    exact congrArg some (Sexp.ofNode_binary rfl hrule rfl rfl hbase hbase)
  · have hlong := (hexact 1).1 hone [.relation (.base "a" ⟨[]⟩)] (.cons_cons hcalls (.singleton _))
    exact absurd hlong (by decide)

end RelAlg
