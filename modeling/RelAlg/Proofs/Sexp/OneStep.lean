import RelAlg.Proofs.Except
import RelAlg.Sexp.OfNode

/-!
# Formatting one node

`Sexp.ofNode` recurses through accessors that carry a size bound.  Its one-step equation speaks of
the plain accessors instead, and everything that is proved about formatting starts from it.

* `Rule.format`          : what a rule does at one node, given the way in which parts are formatted;
* `Sexp.ofNode_of_rule`  : the one-step equation for a node whose kind has a rule;
* `Sexp.ofNode_binary` and so on: the outcome for each rule with slots when its parts succeed.
-/

namespace RelAlg

/-- What a rule makes of a node of kind `k`, where `visit` formats its parts. -/
def Rule.format (visit : Node → Except MissingField Sexp) (k : NodeKind) (n : Node) :
    Rule → Except MissingField Sexp
  | fixed tag => .ok (.list [.symbol tag])
  | unary tag f => do
    let child ← expectField k f (n.field f)
    let s ← visit child
    return .list [.symbol tag, s]
  | binary tag f g => do
    let left ← expectField k f (n.field f)
    let right ← expectField k g (n.field g)
    let s ← visit left
    let t ← visit right
    return .list [.symbol tag, s, t]
  | collect => do
    let items ← expectField k .items n.items
    let out ← items.mapM visit
    return .list out
  | base => do
    let name ← expectField k .name n.name
    let header ← expectField k .header n.headerOf
    return .list [.symbol "base", .string name, header.pairs]
  | materialized => do
    let header ← expectField k .header n.headerOf
    let tuples ← expectField k .tuples n.tuples
    return .list [.symbol "materialized", header.pairs, rowsSexp tuples]
  | extend => do
    let operand ← expectField k .operand (n.field .operand)
    let extensions ← expectField k .extensions n.extensions
    let s ← visit operand
    let out ← extensions.mapM fun x => do
      let t ← visit x.2.node
      return .list [.symbol x.1, t]
    return .list [.symbol "extend", s, .list out]
  | attr => do
    let name ← expectField k .name n.name
    return .list [.symbol "attr", .symbol name]

/-! ## The accessors without their bounds -/

namespace Node

theorem map_child? (n : Node) (f : Field) : (n.child? f).map Subtype.val = n.field f := by
  unfold child?
  split <;> simp [*]

theorem map_smallerItems? (n : Node) :
    n.smallerItems?.map (List.map Subtype.val) = n.items := by
  unfold smallerItems?
  split
  · rename_i items h
    rw [Option.map_some, List.map_map]
    exact (congrArg some (List.attach_map_subtype_val items)).trans h.symm
  · rename_i h
    exact h.symm

theorem map_smallerExtensions? (n : Node) :
    n.smallerExtensions?.map (List.map fun x => (x.1, x.2.val))
      = n.extensions.map (List.map fun x => (x.1, x.2.node)) := by
  unfold smallerExtensions?
  split
  · rename_i l h
    refine Eq.trans ?_ (congrArg (Option.map _) h).symm
    rw [Option.map_some, Option.map_some, List.map_map]
    exact congrArg some
      (List.attach_map_val (f := fun x : String × Operand => (x.1, x.2.node)))
  · rename_i h
    exact (congrArg (Option.map _) h).symm

end Node

/-- Looking up a field commutes with a map on its value. -/
theorem expectField_map {α β : Type} (k : NodeKind) (f : Field) (g : α → β) (value : Option α) :
    expectField k f (value.map g) = g <$> expectField k f value := by
  cases value <;> rfl

namespace Sexp

/-! ## The one-step equation -/

theorem ofNode_of_kind_eq_none {r : Registry} {n : Node} (h : n.kind = none) :
    ofNode r n = .ok n.passThrough := by
  rw [ofNode, h]

theorem ofNode_of_rule?_eq_none {r : Registry} {n : Node} {k : NodeKind} (hk : n.kind = some k)
    (hr : r.rule? k = none) : ofNode r n = .ok n.passThrough := by
  rw [ofNode, hk]
  simp only [hr]

/-- A node whose kind has a rule is formatted as the rule says. -/
theorem ofNode_of_rule {r : Registry} {n : Node} {k : NodeKind} {rule : Rule}
    (hk : n.kind = some k) (hr : r.rule? k = some rule) :
    ofNode r n = rule.format (ofNode r) k n := by
  rw [ofNode, hk]
  cases rule with
  | fixed tag => simp only [hr, Rule.format]
  | unary tag f =>
    simp only [hr, Rule.format, ← n.map_child?, expectField_map, bind_map_left]
  | binary tag f g =>
    simp only [hr, Rule.format, ← n.map_child?, expectField_map, bind_map_left]
  | collect =>
    simp only [hr, Rule.format, ← n.map_smallerItems?, expectField_map, bind_map_left,
      List.mapM_map]
    rfl
  | base => simp only [hr, Rule.format]
  | materialized => simp only [hr, Rule.format]
  | extend =>
    have hext := congrArg (expectField k .extensions) n.map_smallerExtensions?
    simp only [expectField_map] at hext
    simp only [hr, Rule.format, ← n.map_child?, expectField_map, bind_map_left]
    refine bind_congr fun operand => ?_
    -- both sides run the same continuation on the list of names and nodes
    have hrun := congrArg (· >>= fun l : List (String × Node) => do
      let s ← ofNode r operand.val
      let out ← l.mapM fun x => do
        let t ← ofNode r x.2
        return .list [.symbol x.1, t]
      return list [symbol "extend", s, list out]) hext
    simp only [bind_map_left, List.mapM_map] at hrun
    exact hrun
  | attr => simp only [hr, Rule.format]

/-! ## Rules with slots, when every part succeeds -/

variable {r : Registry} {n a b : Node} {k : NodeKind} {tag : String} {f g : Field} {s t : Sexp}

theorem ofNode_fixed (hk : n.kind = some k) (hr : r.rule? k = some (.fixed tag)) :
    ofNode r n = .ok (.list [.symbol tag]) := by
  rw [ofNode_of_rule hk hr]
  rfl

theorem ofNode_unary (hk : n.kind = some k) (hr : r.rule? k = some (.unary tag f))
    (hf : n.field f = some a) (ha : ofNode r a = .ok s) :
    ofNode r n = .ok (.list [.symbol tag, s]) := by
  rw [ofNode_of_rule hk hr, Rule.format, hf]
  show (ofNode r a >>= fun s => _) = _
  rw [ha]
  rfl

theorem ofNode_binary (hk : n.kind = some k) (hr : r.rule? k = some (.binary tag f g))
    (hf : n.field f = some a) (hg : n.field g = some b) (ha : ofNode r a = .ok s)
    (hb : ofNode r b = .ok t) : ofNode r n = .ok (.list [.symbol tag, s, t]) := by
  rw [ofNode_of_rule hk hr, Rule.format, hf, hg]
  show (ofNode r a >>= fun s => ofNode r b >>= fun t => _) = _
  rw [ha, hb]
  rfl

theorem ofNode_collect {items : List Node} (translate : Node → Sexp) (hk : n.kind = some k)
    (hr : r.rule? k = some .collect) (hi : n.items = some items)
    (h : ∀ c ∈ items, ofNode r c = .ok (translate c)) :
    ofNode r n = .ok (.list (items.map translate)) := by
  rw [ofNode_of_rule hk hr, Rule.format, hi]
  show (items.mapM (ofNode r) >>= fun out => _) = _
  rw [mapM_eq_ok_map h]
  rfl

theorem ofNode_extend {extensions : List (String × Operand)} {translate : Operand → Sexp}
    (hk : n.kind = some k) (hr : r.rule? k = some .extend) (hf : n.field .operand = some a)
    (he : n.extensions = some extensions) (ha : ofNode r a = .ok s)
    (h : ∀ e : Operand, ofNode r e.node = .ok (translate e)) :
    ofNode r n = .ok (.list [.symbol "extend", s,
      .list (extensions.map fun x => .list [.symbol x.1, translate x.2])]) := by
  rw [ofNode_of_rule hk hr, Rule.format, hf, he]
  show (ofNode r a >>= fun s => extensions.mapM _ >>= fun out => _) = _
  rw [ha, mapM_eq_ok_map (g := fun x => .list [.symbol x.1, translate x.2]) fun x _ => ?_]
  · rfl
  · rw [h x.2]
    rfl

end Sexp

end RelAlg
