import RelAlg.Proofs.Sexp.Walk

/-!
# When formatting fails

The only failure is a rule that reads a field its node does not provide.  Every node looks up all
its fields before any of its parts is formatted, and parts are formatted from left to right, so of
several faults the first one in pre-order is reported.

* `Rule.provides`        : a node has what a rule reads under a field name;
* `Registry.Malformed`   : a node lacks some field that its rule reads;
* `Registry.FirstLack`   : the first such field, in the order of the rule;
* `Rule.format_eq`       : one node, from its own fields and the formatted parts;
* `Sexp.ofNode_eq`       : the same for the node of any registry;
* `failure?_ofNode`      : the failure of a whole tree is the first fault of its walk;
* `ofNode_outcome`       : formatting succeeds exactly when no node of the walk is malformed, and
  which error it ends with otherwise.
-/

namespace RelAlg

/-! ## Fields that a node lacks -/

/-- The node has what the rule reads under the field: a slot, or what the accessor of
the rule gives. -/
def Rule.provides (n : Node) : Rule → Field → Bool
  | collect, _ => n.items.isSome
  | base, .name | attr, _ => n.name.isSome
  | base, _ | materialized, .header => n.headerOf.isSome
  | materialized, _ => n.tuples.isSome
  | extend, .extensions => n.extensions.isSome
  | _, f => (n.field f).isSome

/-- The first field of the rule, in the order in which it is read, that the node lacks. -/
def Rule.lacks? (n : Node) (rule : Rule) : Option Field :=
  rule.fields.find? fun f => !rule.provides n f

/-- A node that lacks no field has each of them. -/
theorem Rule.provides_of_mem_fields {n : Node} {rule : Rule} {f : Field} (h : rule.lacks? n = none)
    (hf : f ∈ rule.fields) : rule.provides n f = true := by
  have hall := List.find?_eq_none.1 h f hf
  simpa using hall

namespace Registry

/-- The node lacks some field that the rule of its kind reads. -/
def Malformed (r : Registry) (n : Node) : Prop :=
  ∃ k rule f, n.kind = some k ∧ r.rule? k = some rule ∧ f ∈ rule.fields ∧
    rule.provides n f = false

/-- The error names the kind of the node and, of the fields of its rule, the first that
the node lacks. -/
def FirstLack (r : Registry) (n : Node) (e : MissingField) : Prop :=
  ∃ rule before after, n.kind = some e.kind ∧ r.rule? e.kind = some rule ∧
    rule.fields = before ++ e.field :: after ∧ (∀ f ∈ before, rule.provides n f = true) ∧
    rule.provides n e.field = false

/-- The fault of a node, as an error. -/
def fault? (r : Registry) (n : Node) : Option MissingField := do
  let k ← n.kind
  let rule ← r.rule? k
  let f ← rule.lacks? n
  return ⟨k, f⟩

theorem fault?_of_rule {r : Registry} {n : Node} {k : NodeKind} {rule : Rule}
    (hk : n.kind = some k) (hr : r.rule? k = some rule) :
    r.fault? n = (rule.lacks? n).map fun f => ⟨k, f⟩ := by
  simp only [fault?, hk, hr, Option.bind_eq_bind, Option.bind_some]
  cases rule.lacks? n <;> rfl

theorem fault?_of_ruleOf?_eq_none {r : Registry} {n : Node} (h : r.ruleOf? n = none) :
    r.fault? n = none := by
  unfold ruleOf? at h
  unfold fault?
  cases hk : n.kind with
  | none => rfl
  | some k =>
    rw [hk] at h
    show (r.rule? k >>= _) = _
    rw [show r.rule? k = none from h]
    rfl

theorem fault?_eq_some_iff {r : Registry} {n : Node} {e : MissingField} :
    r.fault? n = some e ↔ r.FirstLack n e := by
  constructor
  · intro h
    obtain ⟨k, hk, h⟩ := Option.bind_eq_some_iff.1 h
    obtain ⟨rule, hrule, h⟩ := Option.bind_eq_some_iff.1 h
    obtain ⟨f, hf, h⟩ := Option.bind_eq_some_iff.1 h
    cases h
    obtain ⟨hlacks, before, after, hfields, hbefore⟩ := List.find?_eq_some_iff_append.1 hf
    exact ⟨rule, before, after, hk, hrule, hfields, fun g hg => by simpa using hbefore g hg,
      by simpa using hlacks⟩
  · rintro ⟨rule, before, after, hk, hrule, hfields, hbefore, hlacks⟩
    have hf : rule.lacks? n = some e.field :=
      List.find?_eq_some_iff_append.2
        ⟨by simpa using hlacks, before, after, hfields, fun g hg => by simp [hbefore g hg]⟩
    rw [fault?_of_rule hk hrule, hf]
    rfl

theorem fault?_eq_none_iff {r : Registry} {n : Node} : r.fault? n = none ↔ ¬r.Malformed n := by
  constructor
  · rintro h ⟨k, rule, f, hk, hrule, hf, hlacks⟩
    rw [fault?_of_rule hk hrule, Option.map_eq_none_iff, Rule.lacks?, List.find?_eq_none] at h
    exact h f hf (by simp [hlacks])
  · intro h
    cases hfault : r.fault? n with
    | none => rfl
    | some e =>
      obtain ⟨rule, before, after, hk, hrule, hfields, -, hlacks⟩ := fault?_eq_some_iff.1 hfault
      exact (h ⟨_, rule, e.field, hk, hrule, by rw [hfields]; simp, hlacks⟩).elim

end Registry

/-! ## One node -/

/-- What a rule makes of a node that has every field it reads, where `ss` are the formatted
parts. -/
def Rule.layout (n : Node) : Rule → List Sexp → Sexp
  | fixed tag, ss | unary tag _, ss | binary tag _ _, ss => .list (.symbol tag :: ss)
  | collect, ss => .list ss
  | base, _ => .list [.symbol "base", .string (n.name.getD ""), (n.headerOf.getD ⟨[]⟩).pairs]
  | materialized, _ =>
    .list [.symbol "materialized", (n.headerOf.getD ⟨[]⟩).pairs, rowsSexp (n.tuples.getD [])]
  | extend, ss =>
    .list [.symbol "extend", ss.headD .null,
      .list (List.zipWith (fun x s => .list [.symbol x.1, s]) (n.extensions.getD []) ss.tail)]
  | attr, _ => .list [.symbol "attr", .symbol (n.name.getD "")]

section Format

variable {visit : Node → Except MissingField Sexp} {k : NodeKind} {n : Node}

@[simp] theorem expectField_none_bind {α β : Type} (f : Field) (g : α → Except MissingField β) :
    expectField k f none >>= g = .error ⟨k, f⟩ := rfl

@[simp] theorem expectField_some_bind {α β : Type} (f : Field) (a : α)
    (g : α → Except MissingField β) : expectField k f (some a) >>= g = g a := rfl

@[simp] theorem expectField_none_map {α β : Type} (f : Field) (g : α → β) :
    g <$> expectField k f none = .error ⟨k, f⟩ := rfl

@[simp] theorem expectField_some_map {α β : Type} (f : Field) (g : α → β) (a : α) :
    g <$> expectField k f (some a) = .ok (g a) := rfl

/-- One node: the first field that it lacks is the error, else its parts are formatted in order
and laid out. -/
theorem Rule.format_eq (rule : Rule) : rule.format visit k n = match rule.lacks? n with
    | some f => .error ⟨k, f⟩
    | none => rule.layout n <$> (rule.parts n).mapM visit := by
  cases rule with
  | fixed tag => rfl
  | unary tag f =>
    cases hf : n.field f with
    | none => simp [format, lacks?, fields, provides, hf]
    | some c => simp [format, lacks?, fields, provides, parts, layout, hf]
  | binary tag f g =>
    cases hf : n.field f with
    | none => simp [format, lacks?, fields, provides, hf]
    | some a =>
      cases hg : n.field g with
      | none => simp [format, lacks?, fields, provides, hf, hg]
      | some b => simp [format, lacks?, fields, provides, parts, layout, hf, hg]
  | collect =>
    cases hi : n.items with
    | none => simp [format, lacks?, fields, provides, hi]
    | some items =>
      simp [format, lacks?, fields, provides, parts, hi]
      rfl
  | base =>
    cases hn : n.name with
    | none => simp [format, lacks?, fields, provides, hn]
    | some name =>
      cases hh : n.headerOf with
      | none => simp [format, lacks?, fields, provides, hn, hh]
      | some header =>
        simp [format, lacks?, fields, provides, parts, layout, hn, hh]
        rfl
  | materialized =>
    cases hh : n.headerOf with
    | none => simp [format, lacks?, fields, provides, hh]
    | some header =>
      cases ht : n.tuples with
      | none => simp [format, lacks?, fields, provides, hh, ht]
      | some tuples =>
        simp [format, lacks?, fields, provides, parts, layout, hh, ht]
        rfl
  | extend =>
    cases hf : n.field .operand with
    | none => simp [format, lacks?, fields, provides, hf]
    | some operand =>
      cases he : n.extensions with
      | none => simp [format, lacks?, fields, provides, hf, he]
      | some extensions =>
        have hnamed := mapM_zipWith visit (fun x : String × Operand => x.2.node)
          (fun x t => Sexp.list [.symbol x.1, t]) extensions
        simp [format, lacks?, fields, provides, parts, layout, hf, he, hnamed]
  | attr =>
    cases hn : n.name with
    | none => simp [format, lacks?, fields, provides, hn]
    | some name =>
      simp [format, lacks?, fields, provides, parts, layout, hn]
      rfl

/-- A rule has succeeded when the node has all of its fields and all parts are formatted. -/
theorem Rule.format_eq_ok_iff {rule : Rule} {s : Sexp} : rule.format visit k n = .ok s ↔
    rule.lacks? n = none ∧ ∃ ss, List.Forall₂ (fun c t => visit c = .ok t) (rule.parts n) ss ∧
      rule.layout n ss = s := by
  rw [rule.format_eq]
  cases rule.lacks? n with
  | some f => exact ⟨nofun, fun h => nomatch h.1⟩
  | none => simp only [map_eq_ok_iff, mapM_eq_ok_iff, true_and]

end Format

/-! ## Whole trees -/

/-- Formatting a node looks up all fields of its rule and then formats the parts from
left to right. -/
theorem Sexp.ofNode_eq (r : Registry) (n : Node) : ofNode r n = match r.ruleOf? n, r.fault? n with
    | none, _ => .ok n.passThrough
    | some _, some e => .error e
    | some rule, none => rule.layout n <$> (r.parts n).mapM (ofNode r) := by
  cases hrule : r.ruleOf? n with
  | none => exact ofNode_of_no_rule hrule
  | some rule =>
    obtain ⟨k, hk, hr⟩ := Option.bind_eq_some_iff.1 hrule
    rw [ofNode_of_rule hk hr, rule.format_eq, Registry.fault?_of_rule hk hr,
      Registry.parts_of_rule hrule]
    cases rule.lacks? n <;> rfl

/-- Formatting fails with the fault of the node itself or else with the first failure
of its parts. -/
theorem failure?_ofNode_step (r : Registry) (n : Node) :
    failure? (Sexp.ofNode r n)
      = (r.fault? n).or ((r.parts n).findSome? fun c => failure? (Sexp.ofNode r c)) := by
  rw [Sexp.ofNode_eq]
  cases hrule : r.ruleOf? n with
  | none =>
    rw [Registry.fault?_of_ruleOf?_eq_none hrule, Registry.parts_of_no_rule hrule]
    rfl
  | some rule =>
    cases r.fault? n with
    | some e => rfl
    | none => exact (failure?_map _ _).trans (failure?_mapM _ _)

/-- Formatting a tree fails with the first fault of its walk. -/
theorem failure?_ofNode (r : Registry) (n : Node) :
    failure? (Sexp.ofNode r n) = (r.walk n).findSome? r.fault? := by
  induction n using Registry.walk.induct (r := r) with
  | case1 n ih =>
    rw [failure?_ofNode_step, r.walk_eq, findSome?_cons_or,
      findSome?_flatMap fun c hc => ih ⟨c, hc⟩]

/-- Formatting succeeds exactly when no node of the walk is malformed.  Otherwise the error is that
of the first malformed node of the walk, and names the first field that this node lacks. -/
theorem ofNode_outcome (r : Registry) (n : Node) :
    ((∃ s, Sexp.ofNode r n = .ok s) ↔ ∀ m ∈ r.walk n, ¬r.Malformed m) ∧
    ∀ e, Sexp.ofNode r n = .error e ↔ ∃ before m after, r.walk n = before ++ m :: after ∧
      (∀ b ∈ before, ¬r.Malformed b) ∧ r.FirstLack m e := by
  constructor
  · rw [← failure?_eq_none_iff, failure?_ofNode, List.findSome?_eq_none_iff]
    exact forall₂_congr fun m _ => Registry.fault?_eq_none_iff
  · intro e
    rw [← failure?_eq_some_iff, failure?_ofNode, List.findSome?_eq_some_iff]
    constructor
    · rintro ⟨before, m, after, hwalk, hfault, hbefore⟩
      exact ⟨before, m, after, hwalk, fun b hb => Registry.fault?_eq_none_iff.1 (hbefore b hb),
        Registry.fault?_eq_some_iff.1 hfault⟩
    · rintro ⟨before, m, after, hwalk, hbefore, hlack⟩
      exact ⟨before, m, after, hwalk, Registry.fault?_eq_some_iff.2 hlack,
        fun b hb => Registry.fault?_eq_none_iff.2 (hbefore b hb)⟩

end RelAlg
