import RelAlg.Proofs.Sexp.Failure

/-!
# The nodes kept whole

A node whose kind has no rule is kept in the output as it is.  The nodes kept in an output are
therefore the nodes of the walk without a rule, each once for every time the walk comes by it and in
the order of the walk.

* `Sexp.nodes`             : the nodes in an s-expression, from left to right;
* `Registry.passesThrough` : a node has a kind and the kind has no rule;
* `Sexp.nodes_layout`      : one node adds none to those of its parts;
* `Sexp.nodes_ofNode`      : the nodes in the output are those of the walk that pass through;
* `ofNode_keeps`           : what is kept, in which order, and that nothing below it is formatted.
-/

namespace RelAlg

namespace Sexp

mutual

/-- The nodes in an s-expression, from left to right. -/
def nodes : Sexp → List Node
  | list items => nodesAll items
  | node n => [n]
  | _ => []

def nodesAll : List Sexp → List Node
  | [] => []
  | s :: rest => nodes s ++ nodesAll rest

end

theorem nodesAll_eq_flatMap (ss : List Sexp) : nodesAll ss = ss.flatMap nodes := by
  induction ss with
  | nil => rfl
  | cons s rest ih => rw [nodesAll, ih, List.flatMap_cons]

mutual

/-- A literal turns into atoms and lists of atoms. -/
theorem nodes_toSexp : ∀ l : Literal, l.toSexp.nodes = []
  | .array items => nodesAll_toSexps items
  | .null | .boolean _ | .integer _ | .unsigned _ | .float _ | .string _ => rfl

theorem nodesAll_toSexps : ∀ ls : List Literal, nodesAll (Literal.toSexps ls) = []
  | [] => rfl
  | l :: rest => by rw [Literal.toSexps, nodesAll, nodes_toSexp l, nodesAll_toSexps rest]; rfl

end

theorem nodes_pairs (h : Header) : h.pairs.nodes = [] := by
  rw [Header.pairs, nodes, nodesAll_eq_flatMap, List.flatMap_map]
  exact List.flatMap_eq_nil_iff.2 fun _ _ => rfl

theorem nodes_rowsSexp (tuples : List Tuple) : (rowsSexp tuples).nodes = [] := by
  rw [rowsSexp, nodes, nodesAll_eq_flatMap, List.flatMap_map]
  exact List.flatMap_eq_nil_iff.2 fun t _ => nodesAll_toSexps t

end Sexp

namespace Registry

/-- The node has a kind, and the kind has no rule. -/
def passesThrough (r : Registry) (n : Node) : Bool := n.kind.isSome && (r.ruleOf? n).isNone

theorem passesThrough_of_rule {r : Registry} {n : Node} {rule : Rule}
    (h : r.ruleOf? n = some rule) : r.passesThrough n = false := by
  rw [passesThrough, h]
  exact Bool.and_false _

theorem passesThrough_iff {r : Registry} {n : Node} :
    r.passesThrough n = true ↔ ∃ k, n.kind = some k ∧ r.rule? k = none := by
  rw [passesThrough, ruleOf?]
  cases n.kind with
  | none => simp
  | some k => simp

theorem passesThrough_of_no_rule {r : Registry} {n : Node} (h : r.ruleOf? n = none) :
    r.passesThrough n = n.kind.isSome := by
  rw [passesThrough, h]
  exact Bool.and_true _

end Registry

/-- Lists put side by side agree if their parts do, pair by pair. -/
theorem flatMap_eq_of_forall₂ {α β γ : Type} {R : α → β → Prop} {f : β → List γ} {g : α → List γ}
    {as : List α} {bs : List β} (h : List.Forall₂ R as bs) (hR : ∀ a ∈ as, ∀ b, R a b → f b = g a) :
    bs.flatMap f = as.flatMap g := by
  induction h with
  | nil => rfl
  | @cons a b as bs hab _ ih =>
    rw [List.flatMap_cons, List.flatMap_cons, hR a List.mem_cons_self b hab,
      ih fun c hc => hR c (List.mem_cons_of_mem _ hc)]

namespace Sexp

/-- Without a rule a scalar is its atom and any other node is kept. -/
theorem nodes_passThrough (n : Node) : n.passThrough.nodes = if n.kind.isSome then [n] else [] := by
  cases n with
  | literal l => exact nodes_toSexp l
  | _ => rfl

/-- The names beside the expressions of an extension are symbols. -/
theorem nodesAll_named {xs : List (String × Operand)} {es : List Sexp} (h : es.length = xs.length) :
    nodesAll (List.zipWith (fun x s => .list [.symbol x.1, s]) xs es) = nodesAll es := by
  induction xs generalizing es with
  | nil =>
    obtain rfl : es = [] := List.eq_nil_of_length_eq_zero h
    rfl
  | cons x xs ih =>
    cases es with
    | nil => cases h
    | cons e es =>
      have htail := ih (Nat.succ.inj h)
      simp [nodesAll, nodes, htail]

/-- What a rule puts around the formatted parts holds no nodes. -/
theorem nodes_layout {n : Node} {rule : Rule} {ss : List Sexp} (hfields : rule.lacks? n = none)
    (hlength : ss.length = (rule.parts n).length) : (rule.layout n ss).nodes = nodesAll ss := by
  cases rule with
  | fixed tag => simp [Rule.layout, nodes, nodesAll]
  | unary tag f => simp [Rule.layout, nodes, nodesAll]
  | binary tag f g => simp [Rule.layout, nodes, nodesAll]
  | collect => rfl
  | base =>
    obtain rfl : ss = [] := List.eq_nil_of_length_eq_zero hlength
    simp [Rule.layout, nodes, nodesAll, nodes_pairs]
  | materialized =>
    obtain rfl : ss = [] := List.eq_nil_of_length_eq_zero hlength
    simp [Rule.layout, nodes, nodesAll, nodes_pairs, nodes_rowsSexp]
  | attr =>
    obtain rfl : ss = [] := List.eq_nil_of_length_eq_zero hlength
    simp [Rule.layout, nodes, nodesAll]
  | extend =>
    have hoperand : (n.field .operand).isSome = true :=
      Rule.provides_of_mem_fields hfields List.mem_cons_self
    obtain ⟨operand, hf⟩ := Option.isSome_iff_exists.1 hoperand
    cases ss with
    | nil => simp [Rule.parts, hf] at hlength
    | cons s es =>
      have hes : es.length = (n.extensions.getD []).length := by
        simpa [Rule.parts, hf] using hlength
      simp [Rule.layout, nodes, nodesAll, nodesAll_named hes]

/-- The nodes in the output are those of the walk that pass through, in the order of the walk. -/
theorem nodes_ofNode {r : Registry} {n : Node} {s : Sexp} (h : ofNode r n = .ok s) :
    s.nodes = (r.walk n).filter r.passesThrough := by
  induction n using Registry.walk.induct (r := r) generalizing s with
  | case1 n ih =>
    rw [r.walk_eq, List.filter_cons]
    cases hrule : r.ruleOf? n with
    | none =>
      rw [ofNode_of_no_rule hrule] at h
      cases h
      rw [nodes_passThrough, Registry.passesThrough_of_no_rule hrule,
        Registry.parts_of_no_rule hrule]
      rfl
    | some rule =>
      obtain ⟨k, hk, hr⟩ := Option.bind_eq_some_iff.1 hrule
      have hparts := Registry.parts_of_rule hrule
      rw [ofNode_of_rule hk hr] at h
      obtain ⟨hfields, ss, hvisited, rfl⟩ := Rule.format_eq_ok_iff.1 h
      rw [nodes_layout hfields hvisited.length_eq.symm, nodesAll_eq_flatMap,
        Registry.passesThrough_of_rule hrule, hparts, if_neg Bool.false_ne_true,
        List.filter_flatMap]
      refine flatMap_eq_of_forall₂ hvisited fun c hc t ht => ?_
      rw [← hparts] at hc
      exact ih ⟨c, hc⟩ ht

end Sexp

/-- The walk stops at a node that passes through. -/
theorem Registry.walk_of_passesThrough {r : Registry} {n : Node} (h : r.passesThrough n = true) :
    r.walk n = [n] := by
  rw [passesThrough, Bool.and_eq_true, Option.isNone_iff_eq_none] at h
  exact walk_of_parts_eq_nil (parts_of_no_rule h.2)

/-- The nodes kept in an output are, from left to right, the nodes of the walk whose kind has no
rule.  Each of them is the node itself or found in it by going from nodes to their parts, nothing
below it is formatted, and it is neither a literal nor a count. -/
theorem ofNode_keeps {r : Registry} {n : Node} {s : Sexp} (h : Sexp.ofNode r n = .ok s) :
    s.nodes = (r.walk n).filter r.passesThrough ∧
    ∀ m ∈ s.nodes, m ∈ r.walk n ∧ Relation.ReflTransGen Node.HasPart n m ∧
      (∃ k, m.kind = some k ∧ r.rule? k = none) ∧ r.walk m = [m] ∧
      (∀ l, m ≠ .literal l) ∧ ∀ c, m ≠ .count c := by
  refine ⟨Sexp.nodes_ofNode h, fun m hm => ?_⟩
  rw [Sexp.nodes_ofNode h] at hm
  obtain ⟨hwalk, hpasses⟩ := List.mem_filter.1 hm
  obtain ⟨k, hk, hrule⟩ := Registry.passesThrough_iff.1 hpasses
  refine ⟨hwalk, Registry.hasPart_of_mem_walk hwalk, ⟨k, hk, hrule⟩,
    Registry.walk_of_passesThrough hpasses, ?_, ?_⟩
  · rintro l rfl
    cases hk
  · rintro c rfl
    cases hk

/-- A table that shows the left side of a join twice. -/
def leftTwice : Registry :=
  ⟨[(.limit, .binary "limit" .operand .limit), (.join, .binary "twice" .left .left)],
    List.pairwise_pair.2 (by decide : NodeKind.limit.rank < NodeKind.join.rank)⟩

/-- The first rows of a join. -/
def firstOfJoin : Relation := ((Relation.base "a" ⟨[]⟩).join (.base "b" ⟨[]⟩)).take 2

/-- The left side is kept twice, the right side and the count are not kept at all. -/
theorem ofNode_keeps_leftTwice :
    ∃ s, Sexp.ofNode leftTwice (.relation firstOfJoin) = .ok s ∧
      (leftTwice.walk (.relation firstOfJoin)).filter leftTwice.passesThrough
        = [.relation (.base "a" ⟨[]⟩), .relation (.base "a" ⟨[]⟩)] ∧
      leftTwice.walk (.relation (.base "a" ⟨[]⟩)) = [.relation (.base "a" ⟨[]⟩)] := by
  have hlimit : leftTwice.rule? .limit = some (.binary "limit" .operand .limit) := by decide
  have hjoin : leftTwice.rule? .join = some (.binary "twice" .left .left) := by decide
  have hbase : Sexp.ofNode leftTwice (.relation (.base "a" ⟨[]⟩))
      = .ok (.node (.relation (.base "a" ⟨[]⟩))) :=
    Sexp.ofNode_of_no_rule (by decide)
  have hsides :
      Sexp.ofNode leftTwice (.relation ((Relation.base "a" ⟨[]⟩).join (.base "b" ⟨[]⟩))) = _ :=
    Sexp.ofNode_binary rfl hjoin rfl rfl hbase hbase
  have hfirst : Sexp.ofNode leftTwice (.relation firstOfJoin) = _ :=
    Sexp.ofNode_binary rfl hlimit rfl rfl hsides (Sexp.ofNode_of_no_rule rfl)
  obtain ⟨hnodes, hkept⟩ := ofNode_keeps hfirst
  exact ⟨_, hfirst, hnodes.symm, (hkept _ List.mem_cons_self).2.2.2.1⟩

end RelAlg
