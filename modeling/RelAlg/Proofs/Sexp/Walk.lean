import Mathlib.Logic.Relation
import RelAlg.Proofs.Sexp.OneStep

/-!
# The nodes that rules lead to

Following the rules of a registry from a node reaches a part of its tree: the slots that a rule
names, the items of a collection, the operand and the expressions of an extension.  Nothing below a
node without a rule is reached, nor below one whose rule reads its node directly.

* `Node.HasPart`    : the parts of a node, whatever the rules are;
* `Rule.parts`      : the nodes that one rule leads to, in the order in which they are formatted;
* `Registry.walk`   : all nodes reached from a node, in pre-order;
* `Registry.walk_eq`: a walk is its node and then the walks of the parts.
-/

namespace RelAlg

/-! ## Parts -/

namespace Node

/-- `c` stands in a slot of `n`, among its items or beside a name of an extension. -/
inductive HasPart (n : Node) : Node → Prop where
  | field {c : Node} {f : Field} (h : n.field f = some c) : HasPart n c
  | item {c : Node} {items : List Node} (h : n.items = some items) (hc : c ∈ items) : HasPart n c
  | expression {l : List (String × Operand)} {x : String × Operand} (h : n.extensions = some l)
    (hx : x ∈ l) : HasPart n x.2.node

/-- A part is smaller than the node. -/
theorem HasPart.size_lt {n c : Node} (h : n.HasPart c) : c.size < n.size := by
  cases h with
  | field h => exact size_lt_of_field h
  | item h hc => exact size_lt_of_mem_items h hc
  | expression h hx => exact size_lt_of_mem_extensions h hx

end Node

/-- The parts of `n` that a rule has formatted, in the order in which it does so. -/
def Rule.parts (n : Node) : Rule → List Node
  | unary _ f => (n.field f).toList
  | binary _ f g => (n.field f).toList ++ (n.field g).toList
  | collect => n.items.getD []
  | extend => (n.field .operand).toList ++ (n.extensions.getD []).map fun x => x.2.node
  | fixed _ | base | materialized | attr => []

namespace Registry

/-- The rule for the kind of a node; a scalar has none. -/
def ruleOf? (r : Registry) (n : Node) : Option Rule := n.kind >>= r.rule?

/-- The parts of `n` that are formatted under `r`. -/
def parts (r : Registry) (n : Node) : List Node :=
  match r.ruleOf? n with
  | some rule => rule.parts n
  | none => []

theorem ruleOf?_of_kind {r : Registry} {n : Node} {k : NodeKind} (hk : n.kind = some k) :
    r.ruleOf? n = r.rule? k := by
  rw [ruleOf?, hk]
  rfl

theorem parts_of_rule {r : Registry} {n : Node} {rule : Rule} (h : r.ruleOf? n = some rule) :
    r.parts n = rule.parts n := by
  rw [parts, h]

theorem parts_of_no_rule {r : Registry} {n : Node} (h : r.ruleOf? n = none) : r.parts n = [] := by
  rw [parts, h]

/-- Whatever a rule leads to is a part of the node. -/
theorem hasPart_of_mem_ruleParts {n c : Node} {rule : Rule} (h : c ∈ rule.parts n) :
    n.HasPart c := by
  cases rule with
  | unary tag f => exact .field (Option.mem_toList.1 h)
  | binary tag f g =>
    rcases List.mem_append.1 h with h | h
    · exact .field (Option.mem_toList.1 h)
    · exact .field (Option.mem_toList.1 h)
  | collect =>
    rw [Rule.parts] at h
    cases hitems : n.items with
    | none => rw [hitems] at h; cases h
    | some items =>
      rw [hitems, Option.getD_some] at h
      exact .item hitems h
  | extend =>
    rcases List.mem_append.1 h with h | h
    · exact .field (Option.mem_toList.1 h)
    · obtain ⟨x, hx, rfl⟩ := List.mem_map.1 h
      cases hext : n.extensions with
      | none => rw [hext] at hx; cases hx
      | some l =>
        rw [hext, Option.getD_some] at hx
        exact .expression hext hx
  | fixed tag => cases h
  | base => cases h
  | materialized => cases h
  | attr => cases h

theorem hasPart_of_mem_parts {r : Registry} {n c : Node} (h : c ∈ r.parts n) : n.HasPart c := by
  unfold parts at h
  split at h
  · exact hasPart_of_mem_ruleParts h
  · cases h

/-- Whatever formatting leads to is smaller than the node. -/
theorem size_lt_of_mem_parts {r : Registry} {n c : Node} (h : c ∈ r.parts n) : c.size < n.size :=
  (hasPart_of_mem_parts h).size_lt

/-! ## Walks -/

/-- The nodes that following the rules reaches from `n`, itself first, in pre-order. -/
def walk (r : Registry) (n : Node) : List Node :=
  n :: (r.parts n).attach.flatMap fun c => walk r c.1
termination_by n.size
decreasing_by exact size_lt_of_mem_parts c.2

/-- A walk is its node and then the walks of the parts. -/
theorem walk_eq (r : Registry) (n : Node) : r.walk n = n :: (r.parts n).flatMap r.walk := by
  rw [walk, List.flatMap_def, List.flatMap_def, List.attach_map_val]

/-- A node without parts is its whole walk. -/
theorem walk_of_parts_eq_nil {r : Registry} {n : Node} (h : r.parts n = []) : r.walk n = [n] := by
  rw [r.walk_eq, h]
  rfl

/-- Whatever a walk comes by is reached by going from nodes to their parts. -/
theorem hasPart_of_mem_walk {r : Registry} {n m : Node} (h : m ∈ r.walk n) :
    Relation.ReflTransGen Node.HasPart n m := by
  induction n using walk.induct (r := r) with
  | case1 n ih =>
    rw [r.walk_eq] at h
    rcases List.mem_cons.1 h with rfl | h
    · exact .refl
    · obtain ⟨c, hc, hm⟩ := List.mem_flatMap.1 h
      exact .head (hasPart_of_mem_parts hc) (ih ⟨c, hc⟩ hm)

end Registry

/-- A node without a rule is passed through. -/
theorem Sexp.ofNode_of_no_rule {r : Registry} {n : Node} (h : r.ruleOf? n = none) :
    ofNode r n = .ok n.passThrough := by
  cases hk : n.kind with
  | none => exact ofNode_of_kind_eq_none hk
  | some k => exact ofNode_of_rule?_eq_none hk ((Registry.ruleOf?_of_kind hk).symm.trans h)

end RelAlg
