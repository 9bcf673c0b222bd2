import RelAlg.Proofs.Algebra.Equality
import RelAlg.Proofs.Registry.Lookup
import RelAlg.Proofs.Sexp.PassThrough

/-!
# Equality of output

Floats that are atoms are compared by their bits, so a NaN among them equals itself.  A node that
was kept whole is compared as a tree, and there a NaN equals nothing.  Equality of output is
therefore symmetric and transitive, and an s-expression equals itself exactly when no node in it
holds a NaN.  The canonical rules keep nothing but sets of aliases, so their output always does.

* `Sexp.mergeNodeZeros` : zeros written in one way inside of nodes;
* `Sexp.eqv_iff`        : equality of output as equality;
* `Sexp.eqv_laws`       : which laws of an equality hold, and when two visits of one node agree.
-/

namespace RelAlg

namespace Sexp

/-! ## Equality of output as equality -/

mutual

/-- The s-expression with both zeros written as the positive one, in its nodes only. -/
def mergeNodeZeros : Sexp → Sexp
  | list items => .list (mergeNodeZerosAll items)
  | node n => .node n.mergeZeros
  | symbol name => .symbol name
  | string s => .string s
  | integer n => .integer n
  | unsigned n => .unsigned n
  | float x => .float x
  | boolean b => .boolean b
  | null => .null
  | kind k => .kind k

def mergeNodeZerosAll : List Sexp → List Sexp
  | [] => []
  | s :: rest => s.mergeNodeZeros :: mergeNodeZerosAll rest

end

/-- No node in the s-expression holds a NaN. -/
def NodesNotNaN (s : Sexp) : Prop := ∀ n ∈ s.nodes, n.every Literal.notNaN = true

def NodesNotNaNAll (ss : List Sexp) : Prop := ∀ n ∈ nodesAll ss, n.every Literal.notNaN = true

theorem nodesNotNaNAll_cons {s : Sexp} {rest : List Sexp} :
    NodesNotNaNAll (s :: rest) ↔ s.NodesNotNaN ∧ NodesNotNaNAll rest := by
  simp only [NodesNotNaNAll, NodesNotNaN, nodesAll, List.forall_mem_append]

mutual

/-- S-expressions compare as equal when they are the same up to the signs of zeros in their nodes,
and none of these nodes holds a NaN. -/
theorem eqv_iff : ∀ {a b : Sexp},
    a.eqv b = true ↔ a.mergeNodeZeros = b.mergeNodeZeros ∧ a.NodesNotNaN ∧ b.NodesNotNaN
  | list as, b => by
    cases b with
    | list bs =>
      rw [eqv, eqvAll_iff, mergeNodeZeros, mergeNodeZeros, Sexp.list.injEq]
      rfl
    | _ => simp [eqv, mergeNodeZeros]
  | node m, b => by
    cases b with
    | node n =>
      rw [eqv, Node.numericEq_iff, mergeNodeZeros, mergeNodeZeros, Sexp.node.injEq]
      simp [NodesNotNaN, nodes]
    | _ => simp [eqv, mergeNodeZeros]
  | symbol _, b => by cases b <;> simp [eqv, mergeNodeZeros, NodesNotNaN, nodes]
  | string _, b => by cases b <;> simp [eqv, mergeNodeZeros, NodesNotNaN, nodes]
  | integer _, b => by cases b <;> simp [eqv, mergeNodeZeros, NodesNotNaN, nodes]
  | unsigned _, b => by cases b <;> simp [eqv, mergeNodeZeros, NodesNotNaN, nodes]
  | float _, b => by cases b <;> simp [eqv, mergeNodeZeros, NodesNotNaN, nodes]
  | boolean _, b => by cases b <;> simp [eqv, mergeNodeZeros, NodesNotNaN, nodes]
  | null, b => by cases b <;> simp [eqv, mergeNodeZeros, NodesNotNaN, nodes]
  | kind _, b => by cases b <;> simp [eqv, mergeNodeZeros, NodesNotNaN, nodes]

theorem eqvAll_iff : ∀ {as bs : List Sexp}, eqvAll as bs = true ↔
    mergeNodeZerosAll as = mergeNodeZerosAll bs ∧ NodesNotNaNAll as ∧ NodesNotNaNAll bs
  | [], [] => by simp [eqvAll, mergeNodeZerosAll, NodesNotNaNAll, nodesAll]
  | [], _ :: _ => by simp [eqvAll, mergeNodeZerosAll]
  | _ :: _, [] => by simp [eqvAll, mergeNodeZerosAll]
  | a :: as, b :: bs => by
    have hhead := @eqv_iff a b
    have htail := @eqvAll_iff as bs
    simp only [eqvAll, mergeNodeZerosAll, Bool.and_eq_true, List.cons.injEq, nodesNotNaNAll_cons,
      hhead, htail]
    tauto

end

/-! ## Laws of equality -/

variable {a b c : Sexp}

theorem eqv_symm (h : a.eqv b = true) : b.eqv a = true := by
  obtain ⟨hmerge, ha, hb⟩ := eqv_iff.1 h
  exact eqv_iff.2 ⟨hmerge.symm, hb, ha⟩

theorem eqv_trans (hab : a.eqv b = true) (hbc : b.eqv c = true) : a.eqv c = true := by
  obtain ⟨hmerge, ha, -⟩ := eqv_iff.1 hab
  obtain ⟨hmerge', -, hc⟩ := eqv_iff.1 hbc
  exact eqv_iff.2 ⟨hmerge.trans hmerge', ha, hc⟩

/-- An s-expression equals itself exactly when no node in it holds a NaN. -/
theorem eqv_self_iff : a.eqv a = true ↔ a.NodesNotNaN := by
  rw [eqv_iff]
  constructor
  · rintro ⟨-, ha, -⟩
    exact ha
  · intro ha
    exact ⟨rfl, ha, ha⟩

/-- Only sets of aliases have their kind. -/
theorem eq_aliases_of_kind {m : Node} (h : m.kind = some .aliasSet) :
    ∃ aliases, m = .aliases aliases := by
  cases m with
  | aliases s => exact ⟨s, rfl⟩
  | relation r =>
    cases r with
    | combine op _ _ => cases op <;> cases h
    | _ => cases h
  | function f =>
    cases f with
    | binary op _ _ => cases op <;> cases h
    | unary op _ => cases op <;> cases h
    | _ => cases h
  | attr a =>
    obtain ⟨_, kind⟩ := a
    cases kind <;> cases h
  | direction d =>
    obtain ⟨order, _⟩ := d
    cases order <;> cases h
  | _ => cases h

/-- Under the canonical rules nothing but a set of aliases is passed through. -/
theorem exists_eq_aliases_of_passesThrough {m : Node}
    (h : Registry.canonical.passesThrough m = true) :
    ∃ aliases, m = .aliases aliases := by
  rw [Registry.passesThrough, Bool.and_eq_true] at h
  obtain ⟨k, hk⟩ := Option.isSome_iff_exists.1 h.1
  have hrule := Option.isNone_iff_eq_none.1 h.2
  rw [Registry.ruleOf?_of_kind hk] at hrule
  by_cases haliases : k = .aliasSet
  · exact eq_aliases_of_kind (haliases ▸ hk)
  · obtain ⟨rule, hr⟩ := Registry.exists_rule?_canonical haliases
    simp [hr] at hrule

/-- Equality of output is symmetric and transitive, and holds of an s-expression and itself exactly
when no node in it holds a NaN.  So two visits of one node agree exactly when no node that the walk
passes through holds one, and under the canonical rules they always do. -/
theorem eqv_laws (a b c : Sexp) :
    (a.eqv b = true → b.eqv a = true) ∧
    (a.eqv b = true → b.eqv c = true → a.eqv c = true) ∧
    (a.eqv a = true ↔ ∀ n ∈ a.nodes, n.every Literal.notNaN = true) ∧
    (∀ (r : Registry) (n : Node), ofNode r n = .ok a → ofNode r n = .ok b →
      (a.eqv b = true ↔ ∀ m ∈ r.walk n, r.passesThrough m = true → m.every Literal.notNaN = true)) ∧
    ∀ n : Node, ofNode .canonical n = .ok a → ofNode .canonical n = .ok b → a.eqv b = true := by
  have hvisits : ∀ (r : Registry) (n : Node), ofNode r n = .ok a → ofNode r n = .ok b →
      (a.eqv b = true ↔
        ∀ m ∈ r.walk n, r.passesThrough m = true → m.every Literal.notNaN = true) := by
    intro r n ha hb
    obtain rfl : a = b := Except.ok.inj (ha.symm.trans hb)
    rw [eqv_self_iff, NodesNotNaN, nodes_ofNode ha]
    simp only [List.mem_filter, and_imp]
  refine ⟨eqv_symm, eqv_trans, eqv_self_iff, hvisits, ?_⟩
  intro n ha hb
  refine (hvisits .canonical n ha hb).2 fun m _ hm => ?_
  obtain ⟨aliases, rfl⟩ := exists_eq_aliases_of_passesThrough hm
  rfl

/-- Under the empty table a function that holds a NaN is kept whole, and the output
differs from itself. -/
theorem eqv_self_not_nan :
    ∃ s, ofNode .empty (.function (.unary .not (.literal (.float .nan)))) = .ok s ∧
      s.eqv s = false := by
  refine ⟨.node (.function (.unary .not (.literal (.float .nan)))), ?_, ?_⟩
  · exact ofNode_of_rule?_eq_none rfl rfl
  · decide

end Sexp

end RelAlg
