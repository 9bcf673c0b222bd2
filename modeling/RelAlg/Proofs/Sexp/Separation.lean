import Mathlib.Data.List.Forall2
import RelAlg.Proofs.Sexp.Erasure

/-!
# Telling trees apart by their s-expressions

Whether two outputs count as the same can be decided on several levels: as s-expressions, as printed
text, as JSON text.  What matters for the trees behind them is only how the comparison treats atoms
that can occur in one position.  `Separates` lists these facts, and one induction over pairs of
trees draws the conclusion for every comparison that has them.

* `Separates`         : a comparison that tells apart what can stand in one position;
* `Separates.function`: then functions with the same output are equal up to erasure, and conversely;
* `Separates.relation`: the same for relations.
-/

namespace RelAlg

/-- The comparison `R` tells apart what the canonical translation can put in one position, where `p`
holds of the scalar literals. -/
structure Separates (R : Sexp → Sexp → Prop) (p : Literal → Bool) : Prop where
  list : ∀ {ss ts : List Sexp}, R (.list ss) (.list ts) ↔ List.Forall₂ R ss ts
  isList : ∀ {s t : Sexp}, R s t → s.isList = t.isList
  symbol : ∀ {a b : String}, R (.symbol a) (.symbol b) ↔ a = b
  string : ∀ {a b : String}, R (.string a) (.string b) ↔ a = b
  kind : ∀ {j k : AttributeKind}, R (.kind j) (.kind k) ↔ j = k
  count : ∀ {m n : UInt64}, R (.unsigned m) (.unsigned n) ↔ m = n
  aliases : ∀ {s t : AliasSet}, R s.translate t.translate ↔ s = t
  scalar : ∀ {l m : Literal}, l.isScalar = true → m.isScalar = true → p l = true → p m = true →
    (R l.translate m.translate ↔ l = m)
  symbol_scalar : ∀ {a : String} {l : Literal}, l.isScalar = true → ¬R (.symbol a) l.translate
  scalar_symbol : ∀ {a : String} {l : Literal}, l.isScalar = true → ¬R l.translate (.symbol a)

/-! ## Tags tell constructors apart -/

theorem BinaryOp.tag_inj {o q : BinaryOp} : o.tag = q.tag ↔ o = q := by
  cases o <;> cases q <;> decide

theorem UnaryOp.tag_inj {o q : UnaryOp} : o.tag = q.tag ↔ o = q := by
  cases o <;> cases q <;> decide

theorem Combinator.tag_inj {o q : Combinator} : o.tag = q.tag ↔ o = q := by
  cases o <;> cases q <;> decide

theorem SortOrder.tag_inj {o q : SortOrder} : o.tag = q.tag ↔ o = q := by
  cases o <;> cases q <;> decide

/-- No unary function shares its tag with a reference to an attribute. -/
theorem UnaryOp.tag_ne_attr (o : UnaryOp) : o.tag ≠ "attr" := by
  cases o <;> decide

theorem Literal.isList_translate (l : Literal) : l.translate.isList = !l.isScalar := by
  cases l <;> rfl

/-- The output of a function starts with a tag. -/
theorem Function.translate_eq_tagged (f : Function) :
    ∃ a ss, f.translate = .list (.symbol a :: ss) := by
  cases f <;> exact ⟨_, _, rfl⟩

/-- The head of the list for a relation. -/
def Relation.tag : Relation → String
  | .base .. => "base"
  | .materialized .. => "materialized"
  | .order .. => "order"
  | .limit .. => "limit"
  | .offset .. => "offset"
  | .reverse .. => "reverse"
  | .deletion .. => "delete"
  | .insertion .. => "insert"
  | .combine op _ _ => op.tag
  | .projection .. => "project"
  | .restriction .. => "restrict"
  | .extension .. => "extend"
  | .rename .. => "rename"
  | .summarization .. => "summarize"

/-- The tags of combinations are no tags of other relations. -/
@[simp] theorem Combinator.tag_ne (op : Combinator) {t : String}
    (ht : t ∉ ["join", "product", "union", "intersect", "difference"]) : op.tag ≠ t := by
  rintro rfl
  revert ht
  cases op <;> decide

@[simp] theorem Combinator.ne_tag (op : Combinator) {t : String}
    (ht : t ∉ ["join", "product", "union", "intersect", "difference"]) : t ≠ op.tag :=
  (op.tag_ne ht).symm

theorem Relation.translate_eq_tagged (r : Relation) :
    ∃ ss, r.translate = .list (.symbol r.tag :: ss) := by
  cases r <;> exact ⟨_, rfl⟩

theorem Relation.tag_erased (r : Relation) : r.erased.tag = r.tag := by
  cases r <;> rfl

namespace Separates

variable {R : Sexp → Sexp → Prop} {p : Literal → Bool}

/-! ## Lists of parts -/

/-- Lists are compared part by part. -/
theorem list_map {α β : Type} (h : Separates R p) {f : α → Sexp} {e : α → β} {xs ys : List α}
    (hf : ∀ x ∈ xs, ∀ y ∈ ys, (R (f x) (f y) ↔ e x = e y)) :
    R (.list (xs.map f)) (.list (ys.map f)) ↔ xs.map e = ys.map e := by
  rw [h.list]
  induction xs generalizing ys with
  | nil => cases ys <;> simp
  | cons x xs ih =>
    cases ys with
    | nil => simp
    | cons y ys =>
      have hxy := hf x List.mem_cons_self y List.mem_cons_self
      have hrest := ih fun a ha b hb =>
        hf a (List.mem_cons_of_mem _ ha) b (List.mem_cons_of_mem _ hb)
      simp only [List.map_cons, List.forall₂_cons, List.cons.injEq, hxy, hrest]

/-- A list with a tag and one part. -/
theorem tagged_one (h : Separates R p) {a b : String} {s t : Sexp} :
    R (.list [.symbol a, s]) (.list [.symbol b, t]) ↔ a = b ∧ R s t := by
  simp only [h.list, List.forall₂_cons, h.symbol, List.forall₂_nil_left_iff, and_true]

/-- A list with a tag and two parts. -/
theorem tagged_two (h : Separates R p) {a b : String} {s t s' t' : Sexp} :
    R (.list [.symbol a, s, s']) (.list [.symbol b, t, t']) ↔ a = b ∧ R s t ∧ R s' t' := by
  simp only [h.list, List.forall₂_cons, h.symbol, List.forall₂_nil_left_iff, and_true]

/-- Lists with different numbers of parts differ. -/
theorem length_eq (h : Separates R p) {ss ts : List Sexp} (hR : R (.list ss) (.list ts)) :
    ss.length = ts.length :=
  (h.list.1 hR).length_eq

/-- A list with a tag is no literal. -/
theorem not_tagged_literal (h : Separates R p) {a : String} {ss : List Sexp} {l : Literal} :
    ¬R (.list (.symbol a :: ss)) l.translate := by
  intro hR
  have hl := h.isList hR
  cases l with
  | array items =>
    cases items with
    | nil => simpa [Literal.translateAll] using h.length_eq hR
    | cons m rest =>
      have hm := (List.forall₂_cons.1 (h.list.1 hR)).1
      have hsc := h.isList hm
      rw [m.isList_translate] at hsc
      exact h.symbol_scalar (by simpa [Sexp.isList] using hsc) hm
  | _ => simp [Literal.translate, Sexp.isList] at hl

theorem not_literal_tagged (h : Separates R p) {a : String} {ss : List Sexp} {l : Literal} :
    ¬R l.translate (.list (.symbol a :: ss)) := by
  intro hR
  have hl := h.isList hR
  cases l with
  | array items =>
    cases items with
    | nil => simpa [Literal.translateAll] using h.length_eq hR
    | cons m rest =>
      have hm := (List.forall₂_cons.1 (h.list.1 hR)).1
      have hsc := h.isList hm
      rw [m.isList_translate] at hsc
      exact h.scalar_symbol (by simpa [Sexp.isList] using hsc) hm
  | _ => simp [Literal.translate, Sexp.isList] at hl

/-! ## Literals -/

/-- A scalar differs from every array and is compared with a scalar as the comparison says. -/
theorem scalar_literal (h : Separates R p) {l m : Literal} (hs : l.isScalar = true)
    (hl : l.every p = true) (hm : m.every p = true) : R l.translate m.translate ↔ l = m := by
  by_cases hms : m.isScalar = true
  · rw [Literal.every_of_isScalar hs] at hl
    rw [Literal.every_of_isScalar hms] at hm
    exact h.scalar hs hms hl hm
  · constructor
    · intro hR
      have := h.isList hR
      rw [l.isList_translate, m.isList_translate, hs] at this
      simp [hms] at this
    · rintro rfl
      exact (hms hs).elim

mutual

/-- Literals with the same output are the same. -/
theorem literal (h : Separates R p) : ∀ {l m : Literal}, l.every p = true → m.every p = true →
    (R l.translate m.translate ↔ l = m)
  | .array items, m, hl, hm => by
    cases m with
    | array items' =>
      rw [Literal.array.injEq]
      exact h.list.trans (literals h hl hm)
    | _ =>
      refine ⟨fun hR => ?_, fun heq => nomatch heq⟩
      have := h.isList hR
      simp [Literal.translate, Sexp.isList] at this
  | .null, m, hl, hm => scalar_literal h rfl hl hm
  | .boolean _, m, hl, hm => scalar_literal h rfl hl hm
  | .integer _, m, hl, hm => scalar_literal h rfl hl hm
  | .unsigned _, m, hl, hm => scalar_literal h rfl hl hm
  | .float _, m, hl, hm => scalar_literal h rfl hl hm
  | .string _, m, hl, hm => scalar_literal h rfl hl hm

theorem literals (h : Separates R p) : ∀ {ls ms : List Literal}, Literal.everyAll p ls = true →
    Literal.everyAll p ms = true →
    (List.Forall₂ R (Literal.translateAll ls) (Literal.translateAll ms) ↔ ls = ms)
  | [], [], _, _ => by simp [Literal.translateAll]
  | [], _ :: _, _, _ => by simp [Literal.translateAll]
  | _ :: _, [], _, _ => by simp [Literal.translateAll]
  | l :: ls, m :: ms, hl, hm => by
    rw [Literal.everyAll, Bool.and_eq_true] at hl hm
    simp only [Literal.translateAll, List.forall₂_cons, List.cons.injEq]
    exact and_congr (literal h hl.1 hm.1) (literals h hl.2 hm.2)

end

/-! ## Flat parts -/

theorem attr (h : Separates R p) {a b : Attribute} :
    R a.translate b.translate ↔ a.erased = b.erased := by
  rw [Attribute.translate, Attribute.translate, h.tagged_one, h.symbol]
  simp [Attribute.erased]

theorem header (h : Separates R p) {k l : Header} :
    R k.translate l.translate ↔ k.erased = l.erased := by
  rw [Header.translate, Header.translate, h.list_map fun _ _ _ _ => h.attr]
  simp [Header.erased]

/-- The declaration of a header keeps names and kinds. -/
theorem declaration (h : Separates R p) {k l : Header} :
    R k.declaration l.declaration ↔ k = l := by
  have hpair : ∀ a ∈ k.attributes, ∀ b ∈ l.attributes,
      (R (.list [.symbol a.name, .kind a.kind]) (.list [.symbol b.name, .kind b.kind]) ↔
        id a = id b) := by
    intro a _ b _
    rw [h.tagged_one, h.kind, id, id, Attribute.mk.injEq]
  rw [Header.declaration, Header.declaration, h.list_map hpair, List.map_id, List.map_id,
    Header.mk.injEq]

theorem direction (h : Separates R p) {d e : Direction} :
    R d.translate e.translate ↔ d.erased = e.erased := by
  rw [Direction.translate, Direction.translate, h.tagged_one, h.attr, SortOrder.tag_inj]
  simp [Direction.erased]

theorem directionSet (h : Separates R p) {s t : DirectionSet} :
    R s.translate t.translate ↔ s.erased = t.erased := by
  rw [DirectionSet.translate, DirectionSet.translate, h.list_map fun _ _ _ _ => h.direction]
  simp [DirectionSet.erased]

/-- Rows with the same output are the same. -/
theorem rows (h : Separates R p) {ts us : List Tuple}
    (ht : ts.all (Literal.everyAll p) = true) (hu : us.all (Literal.everyAll p) = true) :
    R (.list (ts.map Tuple.translate)) (.list (us.map Tuple.translate)) ↔ ts = us := by
  rw [List.all_eq_true] at ht hu
  have hrow : ∀ t ∈ ts, ∀ u ∈ us, (R (Tuple.translate t) (Tuple.translate u) ↔ id t = id u) :=
    fun t hmem u hmem' => h.list.trans (h.literals (ht t hmem) (hu u hmem'))
  rw [h.list_map hrow, List.map_id, List.map_id]

/-! ## Functions -/

/-- No function looks like a reference to an attribute. -/
theorem not_attr_function (h : Separates R p) {a : Attribute} {f : Function} :
    ¬R a.translate f.translate := by
  intro hR
  cases f with
  | unary o e => exact o.tag_ne_attr (h.tagged_one.1 hR).1.symm
  | _ => simpa using h.length_eq hR

theorem not_function_attr (h : Separates R p) {f : Function} {a : Attribute} :
    ¬R f.translate a.translate := by
  intro hR
  cases f with
  | unary o e => exact o.tag_ne_attr (h.tagged_one.1 hR).1
  | _ => simpa using h.length_eq hR

mutual

theorem operand (h : Separates R p) : ∀ {d e : Operand}, d.every p = true → e.every p = true →
    (R d.translate e.translate ↔ d.erased = e.erased)
  | .attr a, .attr b, _, _ => by
    rw [Operand.translate, Operand.translate, h.attr]
    simp [Operand.erased]
  | .attr a, .function g, _, _ => by
    refine ⟨fun hR => (h.not_attr_function hR).elim, fun heq => ?_⟩
    simp [Operand.erased] at heq
  | .attr a, .literal m, _, _ => by
    refine ⟨fun hR => (h.not_tagged_literal hR).elim, fun heq => ?_⟩
    simp [Operand.erased] at heq
  | .function f, .attr b, _, _ => by
    refine ⟨fun hR => (h.not_function_attr hR).elim, fun heq => ?_⟩
    simp [Operand.erased] at heq
  | .function f, .function g, hd, he => by
    rw [Operand.translate, Operand.translate, function h hd he]
    simp [Operand.erased]
  | .function f, .literal m, _, _ => by
    refine ⟨fun hR => ?_, fun heq => ?_⟩
    · obtain ⟨a, ss, hf⟩ := f.translate_eq_tagged
      rw [Operand.translate, hf] at hR
      exact (h.not_tagged_literal hR).elim
    · simp [Operand.erased] at heq
  | .literal l, .attr b, _, _ => by
    refine ⟨fun hR => (h.not_literal_tagged hR).elim, fun heq => ?_⟩
    simp [Operand.erased] at heq
  | .literal l, .function g, _, _ => by
    refine ⟨fun hR => ?_, fun heq => ?_⟩
    · obtain ⟨a, ss, hg⟩ := g.translate_eq_tagged
      rw [Operand.translate, Operand.translate, hg] at hR
      exact (h.not_literal_tagged hR).elim
    · simp [Operand.erased] at heq
  | .literal l, .literal m, hd, he => by
    rw [Operand.translate, Operand.translate, h.literal hd he]
    simp [Operand.erased]

/-- Functions with the same output are equal up to erasure, and conversely. -/
theorem function (h : Separates R p) : ∀ {f g : Function}, f.every p = true → g.every p = true →
    (R f.translate g.translate ↔ f.erased = g.erased)
  | .binary o d e, g, hf, hg => by
    rw [Function.every, Bool.and_eq_true] at hf
    cases g with
    | binary q d' e' =>
      rw [Function.every, Bool.and_eq_true] at hg
      rw [Function.translate, Function.translate, h.tagged_two, operand h hf.1 hg.1,
        operand h hf.2 hg.2, BinaryOp.tag_inj]
      simp [Function.erased]
    | _ =>
      refine ⟨fun hR => ?_, fun heq => by simp [Function.erased] at heq⟩
      simpa using h.length_eq hR
  | .unary o d, g, hf, hg => by
    cases g with
    | unary q d' =>
      rw [Function.translate, Function.translate, h.tagged_one, operand h hf hg, UnaryOp.tag_inj]
      simp [Function.erased]
    | _ =>
      refine ⟨fun hR => ?_, fun heq => by simp [Function.erased] at heq⟩
      simpa using h.length_eq hR
  | .tautology, g, _, _ => by
    cases g <;> simp [Function.translate, Function.erased, h.list, h.symbol]
  | .contradiction, g, _, _ => by
    cases g <;> simp [Function.translate, Function.erased, h.list, h.symbol]

end

/-! ## Relations -/

theorem extensions (h : Separates R p) {xs ys : List (String × Operand)}
    (hx : (xs.all fun x => x.2.every p) = true) (hy : (ys.all fun y => y.2.every p) = true) :
    R (extensionsTranslate xs) (extensionsTranslate ys) ↔
      xs.map (fun x => (x.1, x.2.erased)) = ys.map (fun y => (y.1, y.2.erased)) := by
  rw [List.all_eq_true] at hx hy
  refine h.list_map fun x hmem y hmem' => ?_
  rw [h.tagged_one, h.operand (hx x hmem) (hy y hmem'), Prod.mk.injEq]

/-- The output of a relation starts with its tag, which is the tag of its constructor. -/
theorem tag_eq (h : Separates R p) {a b : Relation} (hR : R a.translate b.translate) :
    a.tag = b.tag := by
  obtain ⟨ss, ha⟩ := a.translate_eq_tagged
  obtain ⟨ts, hb⟩ := b.translate_eq_tagged
  rw [ha, hb, h.list, List.forall₂_cons, h.symbol] at hR
  exact hR.1

/-- Relations with different tags differ in their output, and also up to erasure. -/
theorem relation_of_tag_ne (h : Separates R p) {a b : Relation} (htag : a.tag ≠ b.tag) :
    R a.translate b.translate ↔ a.erased = b.erased := by
  refine ⟨fun hR => (htag (h.tag_eq hR)).elim, fun heq => (htag ?_).elim⟩
  rw [← a.tag_erased, heq, b.tag_erased]

/-- Relations with the same output are equal up to erasure, and conversely. -/
theorem relation (h : Separates R p) {a b : Relation} (ha : a.every p = true)
    (hb : b.every p = true) : R a.translate b.translate ↔ a.erased = b.erased := by
  induction a generalizing b with
  | base name header =>
    cases b with
    | base name' header' =>
      rw [Relation.translate, Relation.translate, h.tagged_two, h.string, h.declaration]
      simp [Relation.erased]
    | _ => exact h.relation_of_tag_ne (by simp [Relation.tag])
  | materialized header tuples =>
    cases b with
    | materialized header' tuples' =>
      rw [Relation.translate, Relation.translate, h.tagged_two, h.declaration, h.rows ha hb]
      simp [Relation.erased]
    | _ => exact h.relation_of_tag_ne (by simp [Relation.tag])
  | order operand directions ih =>
    cases b with
    | order operand' directions' =>
      rw [Relation.translate, Relation.translate, h.tagged_two, ih (b := operand') ha hb,
        h.directionSet]
      simp [Relation.erased]
    | _ => exact h.relation_of_tag_ne (by simp [Relation.tag])
  | limit operand n ih =>
    cases b with
    | limit operand' n' =>
      rw [Relation.translate, Relation.translate, h.tagged_two, ih (b := operand') ha hb, h.count]
      simp [Relation.erased]
    | _ => exact h.relation_of_tag_ne (by simp [Relation.tag])
  | offset operand n ih =>
    cases b with
    | offset operand' n' =>
      rw [Relation.translate, Relation.translate, h.tagged_two, ih (b := operand') ha hb, h.count]
      simp [Relation.erased]
    | _ => exact h.relation_of_tag_ne (by simp [Relation.tag])
  | reverse operand ih =>
    cases b with
    | reverse operand' =>
      rw [Relation.translate, Relation.translate, h.tagged_one, ih (b := operand') ha hb]
      simp [Relation.erased]
    | _ => exact h.relation_of_tag_ne (by simp [Relation.tag])
  | deletion operand other ih₁ ih₂ =>
    cases b with
    | deletion operand' other' =>
      rw [Relation.every, Bool.and_eq_true] at ha hb
      rw [Relation.translate, Relation.translate, h.tagged_two, ih₁ ha.1 hb.1, ih₂ ha.2 hb.2]
      simp [Relation.erased]
    | _ => exact h.relation_of_tag_ne (by simp [Relation.tag])
  | insertion operand other ih₁ ih₂ =>
    cases b with
    | insertion operand' other' =>
      rw [Relation.every, Bool.and_eq_true] at ha hb
      rw [Relation.translate, Relation.translate, h.tagged_two, ih₁ ha.1 hb.1, ih₂ ha.2 hb.2]
      simp [Relation.erased]
    | _ => exact h.relation_of_tag_ne (by simp [Relation.tag])
  | combine op left right ih₁ ih₂ =>
    cases b with
    | combine op' left' right' =>
      rw [Relation.every, Bool.and_eq_true] at ha hb
      rw [Relation.translate, Relation.translate, h.tagged_two, ih₁ ha.1 hb.1, ih₂ ha.2 hb.2,
        Combinator.tag_inj]
      simp [Relation.erased]
    | _ => exact h.relation_of_tag_ne (by simp [Relation.tag])
  | projection operand header ih =>
    cases b with
    | projection operand' header' =>
      rw [Relation.translate, Relation.translate, h.tagged_two, ih (b := operand') ha hb, h.header]
      simp [Relation.erased]
    | _ => exact h.relation_of_tag_ne (by simp [Relation.tag])
  | restriction operand predicate ih =>
    cases b with
    | restriction operand' predicate' =>
      rw [Relation.every, Bool.and_eq_true] at ha hb
      rw [Relation.translate, Relation.translate, h.tagged_two, ih ha.1 hb.1,
        h.function ha.2 hb.2]
      simp [Relation.erased]
    | _ => exact h.relation_of_tag_ne (by simp [Relation.tag])
  | extension operand extensions ih =>
    cases b with
    | extension operand' extensions' =>
      rw [Relation.every, Bool.and_eq_true] at ha hb
      rw [Relation.translate, Relation.translate, h.tagged_two, ih ha.1 hb.1,
        h.extensions ha.2 hb.2]
      simp [Relation.erased]
    | _ => exact h.relation_of_tag_ne (by simp [Relation.tag])
  | rename operand aliases ih =>
    cases b with
    | rename operand' aliases' =>
      rw [Relation.translate, Relation.translate, h.tagged_two, ih (b := operand') ha hb, h.aliases]
      simp [Relation.erased]
    | _ => exact h.relation_of_tag_ne (by simp [Relation.tag])
  | summarization operand per ih₁ ih₂ =>
    cases b with
    | summarization operand' per' =>
      rw [Relation.every, Bool.and_eq_true] at ha hb
      rw [Relation.translate, Relation.translate, h.tagged_two, ih₁ ha.1 hb.1, ih₂ ha.2 hb.2]
      simp [Relation.erased]
    | _ => exact h.relation_of_tag_ne (by simp [Relation.tag])

end Separates

end RelAlg
