import RelAlg.Proofs.Sexp.Failure

/-!
# A registry matters only where formatting comes by

Which node is formatted next depends on the table, and formatting stops at the first error.  A node
is reached if formatting really comes to it, and two tables that agree on the kinds of all reached
nodes give one result, be it an s-expression or an error.

* `Registry.Reaches`           : formatting a node comes to format another one;
* `Registry.reaches_iff_walk`  : what is reached is the walk up to its first malformed node;
* `Sexp.ofNode_eq_of_reaches`  : tables that agree on what is reached give one result;
* `ofNode_local`               : the same for headers and rows, and for kinds that
  are never reached.
-/

namespace RelAlg

/-! ## Reached nodes -/

namespace Registry

/-- Formatting `n` comes to format `m`: `m` is `n` itself or is reached from a part of `n`,
where `n` has all the fields its rule reads and every part in front of that one is formatted
without an error. -/
inductive Reaches (r : Registry) : Node → Node → Prop where
  | self (n : Node) : Reaches r n n
  | part {n c m : Node} {before after : List Node} (hfields : ¬r.Malformed n)
      (hparts : r.parts n = before ++ c :: after)
      (hbefore : ∀ b ∈ before, ∃ s, Sexp.ofNode r b = .ok s) (hc : Reaches r c m) : Reaches r n m

variable {r : Registry} {n m : Node}

/-- A node without parts reaches only itself. -/
theorem Reaches.eq_of_parts_eq_nil (h : r.Reaches n m) (hn : r.parts n = []) : m = n := by
  cases h with
  | self => rfl
  | part _ hparts _ _ =>
    rw [hn] at hparts
    simp at hparts

/-- A malformed node reaches only itself. -/
theorem Reaches.eq_of_malformed (h : r.Reaches n m) (hn : r.Malformed n) : m = n := by
  cases h with
  | self => rfl
  | part hfields _ _ _ => exact absurd hn hfields

/-- A tree is formatted exactly when no node of its walk is malformed. -/
theorem exists_ofNode_iff : (∃ s, Sexp.ofNode r n = .ok s) ↔ ∀ m ∈ r.walk n, ¬r.Malformed m := by
  rw [← failure?_eq_none_iff, failure?_ofNode, List.findSome?_eq_none_iff]
  exact forall₂_congr fun m _ => fault?_eq_none_iff

end Registry

/-! ## Reached nodes and walks -/

/-- An element in the middle of lists put side by side lies in one of them. -/
theorem exists_of_flatMap_eq_append {α β : Type} {f : α → List β} {l : List α}
    {before after : List β} {b : β} (h : l.flatMap f = before ++ b :: after) :
    ∃ front a back inner rest, l = front ++ a :: back ∧ f a = inner ++ b :: rest ∧
      before = front.flatMap f ++ inner := by
  induction l generalizing before with
  | nil => simp at h
  | cons a l ih =>
    rw [List.flatMap_cons, List.append_eq_append_iff] at h
    obtain ⟨tail, hbefore, hrest⟩ | ⟨tail, hfa, hrest⟩ := h
    · obtain ⟨front, c, back, inner, rest, hl, hc, htail⟩ := ih hrest
      exact ⟨a :: front, c, back, inner, rest, by simp [hl], hc, by simp [hbefore, htail]⟩
    · cases tail with
      | nil =>
        obtain ⟨front, c, back, inner, rest, hl, hc, htail⟩ := @ih [] hrest.symm
        refine ⟨a :: front, c, back, inner, rest, by simp [hl], hc, ?_⟩
        simp_all
      | cons x tail =>
        obtain ⟨rfl, -⟩ := List.cons_eq_cons.1 hrest
        exact ⟨[], a, l, before, tail, rfl, hfa, rfl⟩

namespace Registry

/-- What is reached is the walk up to and including its first malformed node. -/
theorem reaches_iff_walk {r : Registry} {n m : Node} : r.Reaches n m ↔
    ∃ before after, r.walk n = before ++ m :: after ∧ ∀ b ∈ before, ¬r.Malformed b := by
  constructor
  · intro h
    induction h with
    | self n => exact ⟨[], (r.parts n).flatMap r.walk, r.walk_eq n, nofun⟩
    | @part n c m front back hfields hparts hfront _ ih =>
      obtain ⟨before, after, hwalk, hbefore⟩ := ih
      refine ⟨n :: (front.flatMap r.walk ++ before), after ++ back.flatMap r.walk, ?_, ?_⟩
      · simp [r.walk_eq n, hparts, hwalk]
      · intro b hb
        simp only [List.mem_cons, List.mem_append, List.mem_flatMap] at hb
        rcases hb with rfl | ⟨a, ha, hb⟩ | hb
        · exact hfields
        · exact exists_ofNode_iff.1 (hfront a ha) b hb
        · exact hbefore b hb
  · rintro ⟨before, after, hwalk, hbefore⟩
    induction n using walk.induct (r := r) generalizing before after with
    | case1 n ih =>
      rw [r.walk_eq] at hwalk
      cases before with
      | nil =>
        obtain ⟨rfl, -⟩ := List.cons_eq_cons.1 hwalk
        exact .self n
      | cons x before =>
        rw [List.cons_append, List.cons_eq_cons] at hwalk
        obtain ⟨rfl, hwalk⟩ := hwalk
        obtain ⟨hfields, hbefore⟩ := List.forall_mem_cons.1 hbefore
        obtain ⟨front, c, back, inner, rest, hparts, hc, rfl⟩ := exists_of_flatMap_eq_append hwalk
        obtain ⟨hfront, hinner⟩ := List.forall_mem_append.1 hbefore
        have hmem : c ∈ r.parts n := by simp [hparts]
        refine .part hfields hparts ?_ (ih ⟨c, hmem⟩ inner rest hc hinner)
        intro b hb
        exact exists_ofNode_iff.2 fun a ha => hfront a (List.mem_flatMap.2 ⟨b, hb, ha⟩)

end Registry

/-! ## Agreement -/

/-- Tables that agree on the kinds of all reached nodes give one result. -/
theorem Sexp.ofNode_eq_of_reaches {r₁ r₂ : Registry} {n : Node}
    (h : ∀ m k, r₁.Reaches n m → m.kind = some k → r₁.rule? k = r₂.rule? k) :
    ofNode r₁ n = ofNode r₂ n := by
  induction n using Registry.walk.induct (r := r₁) with
  | case1 n ih =>
    cases hk : n.kind with
    | none => rw [ofNode_of_kind_eq_none hk, ofNode_of_kind_eq_none hk]
    | some k =>
      have hself := h n k (.self n) hk
      cases hr : r₁.rule? k with
      | none =>
        rw [ofNode_of_rule?_eq_none hk hr, ofNode_of_rule?_eq_none hk (hself.symm.trans hr)]
      | some rule =>
        rw [ofNode_of_rule hk hr, ofNode_of_rule hk (hself.symm.trans hr), rule.format_eq,
          rule.format_eq]
        cases hl : rule.lacks? n with
        | some f => rfl
        | none =>
          have hparts := Registry.parts_of_rule ((Registry.ruleOf?_of_kind hk).trans hr)
          have hfields : ¬r₁.Malformed n := by
            rw [← Registry.fault?_eq_none_iff, Registry.fault?_of_rule hk hr, hl]
            rfl
          have hagree : (rule.parts n).mapM (ofNode r₁) = (rule.parts n).mapM (ofNode r₂) := by
            rw [← hparts]
            refine mapM_congr_of_front fun front c back hc hfront => ?_
            have hmem : c ∈ r₁.parts n := by simp [hc]
            exact ih ⟨c, hmem⟩ fun m j hm => h m j (.part hfields hc hfront hm)
          simp only [hagree]

/-- A registry acts through the rules of the nodes that formatting comes by, and through nothing
else.  The pairs and rows of a base or materialized relation depend on no other rule, and rules for
kinds that are never reached do not matter. -/
theorem ofNode_local (r₁ r₂ : Registry) (n : Node) :
    ((∀ m k, r₁.Reaches n m → m.kind = some k → r₁.rule? k = r₂.rule? k) →
      Sexp.ofNode r₁ n = Sexp.ofNode r₂ n) ∧
    (∀ k rule, n.kind = some k → r₁.rule? k = some rule → rule = .base ∨ rule = .materialized →
      (∀ m, r₁.Reaches n m → m = n) ∧
      (r₂.rule? k = some rule → Sexp.ofNode r₁ n = Sexp.ofNode r₂ n)) ∧
    ∀ unreached : NodeKind → Prop, (∀ m k, r₁.Reaches n m → m.kind = some k → ¬unreached k) →
      (∀ k, ¬unreached k → r₁.rule? k = r₂.rule? k) → Sexp.ofNode r₁ n = Sexp.ofNode r₂ n := by
  refine ⟨Sexp.ofNode_eq_of_reaches, ?_, ?_⟩
  · intro k rule hk hr hrule
    have hparts : r₁.parts n = [] := by
      rw [Registry.parts_of_rule ((Registry.ruleOf?_of_kind hk).trans hr)]
      rcases hrule with rfl | rfl
      · rfl
      · rfl
    have honly : ∀ m, r₁.Reaches n m → m = n := fun m hm => hm.eq_of_parts_eq_nil hparts
    refine ⟨honly, fun hr₂ => Sexp.ofNode_eq_of_reaches fun m j hm hj => ?_⟩
    rw [honly m hm, hk] at hj
    cases hj
    rw [hr, hr₂]
  · intro unreached hunreached hagree
    exact Sexp.ofNode_eq_of_reaches fun m k hm hk => hagree k (hunreached m k hm hk)

/-- A table in which the rule for joins asks for an operand, which joins lack, and base relations
have the given rule. -/
def operandJoins (rule : Rule) : Registry :=
  ⟨[(.base, rule), (.join, .binary "join" .operand .right)],
    List.pairwise_pair.2 (by decide : NodeKind.base.rank < NodeKind.join.rank)⟩

/-- The error at a join hides both of its sides, so the rule for base relations does not
matter below it. -/
theorem ofNode_local_error :
    (operandJoins .base).rule? .base ≠ (operandJoins .collect).rule? .base ∧
    Sexp.ofNode (operandJoins .base) (.relation ((Relation.base "a" ⟨[]⟩).join (.base "b" ⟨[]⟩)))
      = Sexp.ofNode (operandJoins .collect)
        (.relation ((Relation.base "a" ⟨[]⟩).join (.base "b" ⟨[]⟩))) := by
  refine ⟨by decide, (ofNode_local _ _ _).1 fun m k hm hk => ?_⟩
  have hjoin : m = .relation ((Relation.base "a" ⟨[]⟩).join (.base "b" ⟨[]⟩)) :=
    hm.eq_of_malformed
      ⟨.join, .binary "join" .operand .right, .operand, rfl, by decide, by decide, rfl⟩
  rw [hjoin] at hk
  cases hk
  decide

end RelAlg
