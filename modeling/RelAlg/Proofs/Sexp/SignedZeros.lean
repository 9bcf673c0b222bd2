import RelAlg.Proofs.Decode.Scalars
import RelAlg.Proofs.Sexp.Equality

/-!
# Equal trees and their output

Trees are compared with floats as numbers, s-expressions with floats as bits.  On trees that are
equal the two comparisons part at one point only, the sign of a zero: the outputs of equal trees are
the same once all zeros are written in one way, and they are equal as they are exactly when the
float literals of the trees agree in their bits.

* `Sexp.mergeAtomZeros`            : an s-expression with all its zeros written as the positive one;
* `Sexp.floats`, `Node.floats`     : the floats of an s-expression and of a tree, from
  left to right;
* `Node.mergeAtomZeros_translate`, `Node.floats_translate`: both are read off the tree;
* `Sexp.eq_of_floats_eq`           : zeros written in one way and the floats
  determine an s-expression;
* `eqv_ofNode_of_numericEq`        : the outputs of equal trees.
-/

namespace RelAlg

/-! ## Zeros and floats of s-expressions -/

/-- The number in a float literal. -/
def Literal.float? : Literal → Option Binary64
  | .float x => some x
  | _ => none

/-- The float literals of a tree, from left to right. -/
def Node.floats (n : Node) : List Binary64 := n.scalars.filterMap Literal.float?

namespace Sexp

mutual

/-- The s-expression with both zeros written as the positive one in its atoms. -/
def mergeAtomZeros : Sexp → Sexp
  | list items => .list (mergeAtomZerosAll items)
  | float x => .float x.mergeZeros
  | s => s

def mergeAtomZerosAll : List Sexp → List Sexp
  | [] => []
  | s :: rest => s.mergeAtomZeros :: mergeAtomZerosAll rest

end

mutual

/-- The floats among the atoms, from left to right. -/
def floats : Sexp → List Binary64
  | list items => floatsAll items
  | float x => [x]
  | _ => []

def floatsAll : List Sexp → List Binary64
  | [] => []
  | s :: rest => s.floats ++ floatsAll rest

end

theorem mergeAtomZerosAll_eq_map (ss : List Sexp) :
    mergeAtomZerosAll ss = ss.map mergeAtomZeros := by
  induction ss with
  | nil => rfl
  | cons s rest ih => rw [mergeAtomZerosAll, ih, List.map_cons]

theorem floatsAll_eq_flatMap (ss : List Sexp) : floatsAll ss = ss.flatMap floats := by
  induction ss with
  | nil => rfl
  | cons s rest ih => rw [floatsAll, ih, List.flatMap_cons]

theorem mergeAtomZeros_list_map {α : Type} (f : α → Sexp) (xs : List α) :
    (list (xs.map f)).mergeAtomZeros = list (xs.map fun x => (f x).mergeAtomZeros) := by
  rw [mergeAtomZeros, mergeAtomZerosAll_eq_map, List.map_map]
  rfl

theorem floats_list_map {α : Type} (f : α → Sexp) (xs : List α) :
    (list (xs.map f)).floats = xs.flatMap fun x => (f x).floats := by
  rw [floats, floatsAll_eq_flatMap, List.flatMap_map]

mutual

/-- As many floats, each with its zero written as the positive one. -/
theorem floats_mergeAtomZeros :
    ∀ s : Sexp, s.mergeAtomZeros.floats = s.floats.map Binary64.mergeZeros
  | list items => floatsAll_mergeAtomZerosAll items
  | float _ | symbol _ | string _ | integer _ | unsigned _ | boolean _ | null
  | kind _ | node _ => rfl

theorem floatsAll_mergeAtomZerosAll : ∀ ss : List Sexp,
    floatsAll (mergeAtomZerosAll ss) = (floatsAll ss).map Binary64.mergeZeros
  | [] => rfl
  | s :: rest => by
    rw [mergeAtomZerosAll, floatsAll, floatsAll, List.map_append, floats_mergeAtomZeros s,
      floatsAll_mergeAtomZerosAll rest]

end

mutual

/-- What an s-expression is once its zeros are written in one way, and its floats, determine it. -/
theorem eq_of_floats_eq :
    ∀ {s t : Sexp}, s.mergeAtomZeros = t.mergeAtomZeros → s.floats = t.floats → s = t
  | list ss, t, hmerge, hfloats => by
    cases t with
    | list ts => exact congrArg list (eqAll_of_floats_eq (list.inj hmerge) hfloats)
    | _ => cases hmerge
  | float x, t, hmerge, hfloats => by
    cases t with
    | float y => exact congrArg float (List.singleton_inj.1 hfloats)
    | _ => cases hmerge
  | symbol _, t, hmerge, _ | string _, t, hmerge, _ | integer _, t, hmerge, _
  | unsigned _, t, hmerge, _ | boolean _, t, hmerge, _ | null, t, hmerge, _ | kind _, t, hmerge, _
  | node _, t, hmerge, _ => by
    cases t with
    | list ts => cases hmerge
    | float y => cases hmerge
    | _ => exact hmerge

theorem eqAll_of_floats_eq : ∀ {ss ts : List Sexp}, mergeAtomZerosAll ss = mergeAtomZerosAll ts →
    floatsAll ss = floatsAll ts → ss = ts
  | [], [], _, _ => rfl
  | s :: ss, t :: ts, hmerge, hfloats => by
    obtain ⟨hhead, htail⟩ := List.cons.inj hmerge
    -- the floats of the heads are as many, so the lists of floats are cut at one point
    have hlength : s.floats.length = t.floats.length := by
      have hmapped := congrArg (List.length ∘ floats) hhead
      simpa [floats_mergeAtomZeros] using hmapped
    obtain ⟨hfront, hback⟩ := List.append_inj hfloats hlength
    rw [eq_of_floats_eq hhead hfront, eqAll_of_floats_eq htail hback]

end

end Sexp

/-! ## Zeros and floats of translations -/

namespace Sexp

/-- The s-expression is `t` once its zeros are written in one way, and its floats are
those among `ls`. -/
structure Shows (s t : Sexp) (ls : List Literal) : Prop where
  mergeAtomZeros : s.mergeAtomZeros = t
  floats : s.floats = ls.filterMap Literal.float?

namespace Shows

variable {s s' t t' : Sexp} {ls ms : List Literal} {tag : String}

theorem tagged_one (h : Shows s s' ls) :
    Shows (.list [.symbol tag, s]) (.list [.symbol tag, s']) ls where
  mergeAtomZeros := congrArg (fun x => Sexp.list [.symbol tag, x]) h.mergeAtomZeros
  floats := (List.append_nil s.floats).trans h.floats

theorem tagged_two (h : Shows s s' ls) (ht : Shows t t' ms) :
    Shows (.list [.symbol tag, s, t]) (.list [.symbol tag, s', t']) (ls ++ ms) where
  mergeAtomZeros :=
    congrArg₂ (fun x y => Sexp.list [.symbol tag, x, y]) h.mergeAtomZeros ht.mergeAtomZeros
  floats := by
    rw [List.filterMap_append, ← h.floats, ← ht.floats]
    exact congrArg (s.floats ++ ·) (List.append_nil t.floats)

/-- The second part has no floats. -/
theorem tagged_left (h : Shows s s' ls) (ht : Shows t t []) :
    Shows (.list [.symbol tag, s, t]) (.list [.symbol tag, s', t]) ls := by
  simpa only [List.append_nil] using h.tagged_two ht

theorem list_map {α : Type} {f g : α → Sexp} {scalars : α → List Literal} (xs : List α)
    (h : ∀ x, Shows (f x) (g x) (scalars x)) :
    Shows (.list (xs.map f)) (.list (xs.map g)) (xs.flatMap scalars) where
  mergeAtomZeros := by
    rw [mergeAtomZeros_list_map]
    simp only [(h _).mergeAtomZeros]
  floats := by
    rw [floats_list_map, List.filterMap_flatMap]
    simp only [(h _).floats]

/-- Nor has a list whose elements have none. -/
theorem list_map_nil {α : Type} {f : α → Sexp} (xs : List α) (h : ∀ x, Shows (f x) (f x) []) :
    Shows (.list (xs.map f)) (.list (xs.map f)) [] := by
  have hnil : (xs.flatMap fun _ => ([] : List Literal)) = [] :=
    List.flatMap_eq_nil_iff.2 fun _ _ => rfl
  exact hnil ▸ list_map xs h

end Shows

end Sexp

open Sexp

mutual

theorem Literal.shows_translate : ∀ l : Literal, Shows l.translate l.mergeZeros.translate l.scalars
  | .array items =>
    have h := Literal.shows_translateAll items
    ⟨congrArg Sexp.list h.1, h.2⟩
  | .null | .boolean _ | .integer _ | .unsigned _ | .float _ | .string _ => ⟨rfl, rfl⟩

theorem Literal.shows_translateAll : ∀ ls : List Literal,
    mergeAtomZerosAll (Literal.translateAll ls) = Literal.translateAll (Literal.mergeZerosAll ls) ∧
    floatsAll (Literal.translateAll ls) = (Literal.scalarsAll ls).filterMap Literal.float?
  | [] => ⟨rfl, rfl⟩
  | l :: rest => by
    obtain ⟨hmerge, hfloats⟩ := Literal.shows_translate l
    obtain ⟨hmerge', hfloats'⟩ := Literal.shows_translateAll rest
    refine ⟨congrArg₂ List.cons hmerge hmerge', ?_⟩
    rw [Literal.translateAll, floatsAll, Literal.scalarsAll, List.filterMap_append, hfloats,
      hfloats']

end

theorem Tuple.shows_translate (t : Tuple) :
    Shows (Tuple.translate t) (Tuple.translate (Literal.mergeZerosAll t)) (Literal.scalarsAll t) :=
  Literal.shows_translate (.array t)

theorem Attribute.shows_translate (a : Attribute) : Shows a.translate a.translate [] := ⟨rfl, rfl⟩

theorem Header.shows_translate (h : Header) : Shows h.translate h.translate [] :=
  Shows.list_map_nil _ Attribute.shows_translate

theorem Header.shows_declaration (h : Header) : Shows h.declaration h.declaration [] :=
  Shows.list_map_nil _ fun _ => ⟨rfl, rfl⟩

theorem Direction.shows_translate (d : Direction) : Shows d.translate d.translate [] := ⟨rfl, rfl⟩

theorem DirectionSet.shows_translate (s : DirectionSet) : Shows s.translate s.translate [] :=
  Shows.list_map_nil _ Direction.shows_translate

mutual

theorem Operand.shows_translate : ∀ e : Operand, Shows e.translate e.mergeZeros.translate e.scalars
  | .attr a => a.shows_translate
  | .function f => Function.shows_translate f
  | .literal l => l.shows_translate

theorem Function.shows_translate :
    ∀ f : Function, Shows f.translate f.mergeZeros.translate f.scalars
  | .binary _ left right =>
    (Operand.shows_translate left).tagged_two (Operand.shows_translate right)
  | .unary _ operand => (Operand.shows_translate operand).tagged_one
  | .tautology | .contradiction => ⟨rfl, rfl⟩

end

theorem shows_extensionsTranslate (extensions : List (String × Operand)) :
    Shows (extensionsTranslate extensions)
      (extensionsTranslate (extensions.map fun x => (x.1, x.2.mergeZeros)))
      (extensions.flatMap fun x => x.2.scalars) := by
  rw [extensionsTranslate, extensionsTranslate, List.map_map]
  exact Shows.list_map _ fun x => x.2.shows_translate.tagged_one

theorem shows_rows (tuples : List Tuple) :
    Shows (.list (tuples.map Tuple.translate))
      (.list ((tuples.map Literal.mergeZerosAll).map Tuple.translate))
      (tuples.flatMap Literal.scalarsAll) := by
  rw [List.map_map]
  exact Shows.list_map _ Tuple.shows_translate

theorem Relation.shows_translate (r : Relation) :
    Shows r.translate r.mergeZeros.translate r.scalars := by
  induction r with
  | base name header =>
    exact Shows.tagged_left (s := .string name) ⟨rfl, rfl⟩ header.shows_declaration
  | materialized header tuples => exact header.shows_declaration.tagged_two (shows_rows tuples)
  | order operand directions ih => exact ih.tagged_left directions.shows_translate
  | limit operand n ih | offset operand n ih => exact ih.tagged_left ⟨rfl, rfl⟩
  | reverse operand ih => exact ih.tagged_one
  | deletion operand other ih₁ ih₂ | insertion operand other ih₁ ih₂
  | summarization operand other ih₁ ih₂ => exact ih₁.tagged_two ih₂
  | combine op left right ih₁ ih₂ => exact ih₁.tagged_two ih₂
  | projection operand header ih => exact ih.tagged_left header.shows_translate
  | restriction operand predicate ih => exact ih.tagged_two predicate.shows_translate
  | extension operand extensions ih => exact ih.tagged_two (shows_extensionsTranslate extensions)
  | rename operand aliases ih => exact ih.tagged_left ⟨rfl, rfl⟩

/-- Zeros and floats of the output are those of the tree. -/
theorem Node.shows_translate (n : Node) : Shows n.translate n.mergeZeros.translate n.scalars := by
  cases n with
  | relation r => exact r.shows_translate
  | function f => exact f.shows_translate
  | attr a => exact a.shows_translate
  | header h => exact h.shows_translate
  | direction d => exact d.shows_translate
  | directionSet s => exact s.shows_translate
  | aliases s => exact ⟨rfl, rfl⟩
  | literal l => exact l.shows_translate
  | count n => exact ⟨rfl, rfl⟩

/-! ## Equality of canonical output -/

namespace Sexp

mutual

/-- Merging zeros changes nothing if only sets of aliases are kept whole. -/
theorem mergeNodeZeros_eq_self : ∀ {s : Sexp}, (∀ n ∈ s.nodes, ∃ aliases, n = .aliases aliases) →
    s.mergeNodeZeros = s
  | list _, h => congrArg list (mergeNodeZerosAll_eq_self h)
  | node _, h => by
    obtain ⟨aliases, rfl⟩ := h _ (List.mem_singleton_self _)
    rfl
  | symbol _, _ | string _, _ | integer _, _ | unsigned _, _ | float _, _ | boolean _, _ | null, _
  | kind _, _ => rfl

theorem mergeNodeZerosAll_eq_self : ∀ {ss : List Sexp},
    (∀ n ∈ nodesAll ss, ∃ aliases, n = .aliases aliases) → mergeNodeZerosAll ss = ss
  | [], _ => rfl
  | _ :: _, h => by
    rw [nodesAll, List.forall_mem_append] at h
    rw [mergeNodeZerosAll, mergeNodeZeros_eq_self h.1, mergeNodeZerosAll_eq_self h.2]

end

/-- Canonical output keeps nothing whole but sets of aliases. -/
theorem nodes_translate (n : Node) : ∀ m ∈ n.translate.nodes, ∃ aliases, m = .aliases aliases := by
  rw [nodes_ofNode (ofNode_canonical n)]
  exact fun m hm => exists_eq_aliases_of_passesThrough (List.mem_filter.1 hm).2

/-- Canonical outputs compare as equal exactly when they are the same. -/
theorem eqv_translate_iff {m n : Node} :
    m.translate.eqv n.translate = true ↔ m.translate = n.translate := by
  have hnotNaN : ∀ n : Node, n.translate.NodesNotNaN := by
    intro n m hm
    obtain ⟨aliases, rfl⟩ := nodes_translate n m hm
    rfl
  rw [eqv_iff, mergeNodeZeros_eq_self (nodes_translate m),
    mergeNodeZeros_eq_self (nodes_translate n)]
  exact ⟨And.left, fun h => ⟨h, hnotNaN m, hnotNaN n⟩⟩

end Sexp

theorem Node.floats_translate (n : Node) : n.translate.floats = n.floats := n.shows_translate.floats

/-- Equal trees have the same output up to the sign of zeros. -/
theorem Node.mergeAtomZeros_of_numericEq {m n : Node} (h : m.numericEq n = true) :
    m.translate.mergeAtomZeros = n.translate.mergeAtomZeros := by
  rw [m.shows_translate.mergeAtomZeros, n.shows_translate.mergeAtomZeros,
    (Node.numericEq_iff.1 h).1]

namespace Binary64

/-- Numbers that are the same up to the sign of a zero are the same if one of them is no zero. -/
theorem eq_of_mergeZeros_eq {x y : Binary64} (h : x.mergeZeros = y.mergeZeros)
    (hx : x.isZero = false) : x = y := by
  rw [mergeZeros_of_not_isZero hx] at h
  cases hy : y.isZero with
  | false => rwa [mergeZeros_of_not_isZero hy] at h
  | true =>
    rw [mergeZeros_of_isZero hy] at h
    rw [h] at hx
    exact absurd hx (by decide)

theorem eq_of_map_mergeZeros_eq {xs ys : List Binary64} (h : xs.map mergeZeros = ys.map mergeZeros)
    (hxs : ∀ x ∈ xs, x.isZero = false) : xs = ys := by
  induction xs generalizing ys with
  | nil => exact (List.map_eq_nil_iff.1 h.symm).symm
  | cons x xs ih =>
    cases ys with
    | nil => cases h
    | cons y ys =>
      obtain ⟨hx, hrest⟩ := List.forall_mem_cons.1 hxs
      obtain ⟨hhead, htail⟩ := List.cons.inj h
      rw [eq_of_mergeZeros_eq hhead hx, ih htail hrest]

end Binary64

/-- Trees that are equal, their floats being compared as numbers, have float literals that agree up
to the signs of zeros, and so do their outputs.  The outputs compare as equal exactly when the
literals agree in their signs too, and therefore always if no literal is a zero, as in headers and
sets of directions. -/
theorem eqv_ofNode_of_numericEq {m n : Node} (h : m.numericEq n = true) :
    m.floats.map Binary64.mergeZeros = n.floats.map Binary64.mergeZeros ∧
    ∃ s t, Sexp.ofNode .canonical m = .ok s ∧ Sexp.ofNode .canonical n = .ok t ∧
      s.mergeAtomZeros = t.mergeAtomZeros ∧ (s.eqv t = true ↔ m.floats = n.floats) ∧
      ((∀ x ∈ m.floats, x.isZero = false) → s.eqv t = true) := by
  have hmerge := Node.mergeAtomZeros_of_numericEq h
  have hfloats : m.floats.map Binary64.mergeZeros = n.floats.map Binary64.mergeZeros := by
    rw [← m.floats_translate, ← n.floats_translate, ← floats_mergeAtomZeros,
      ← floats_mergeAtomZeros, hmerge]
  have heqv : m.translate.eqv n.translate = true ↔ m.floats = n.floats := by
    rw [eqv_translate_iff, ← m.floats_translate, ← n.floats_translate]
    exact ⟨congrArg Sexp.floats, eq_of_floats_eq hmerge⟩
  refine ⟨hfloats, m.translate, n.translate, ofNode_canonical m, ofNode_canonical n, hmerge,
    heqv, ?_⟩
  exact fun hzero => heqv.2 (Binary64.eq_of_map_mergeZeros_eq hfloats hzero)

/-- Whether an attribute is one of two numbers. -/
def isAmong (x y : Binary64) : Function :=
  .binary .inclusion (.attr ⟨"a", .float⟩) (.literal (.array [.float x, .float y]))

/-- The sign of one of two zeros shows in the output, and nothing else does. -/
theorem eqv_ofNode_of_numericEq_isAmong :
    (Node.function (isAmong ⟨0⟩ ⟨0x8000000000000000⟩)).numericEq (.function (isAmong ⟨0⟩ ⟨0⟩))
      = true ∧
    ∃ s t, Sexp.ofNode .canonical (.function (isAmong ⟨0⟩ ⟨0x8000000000000000⟩)) = .ok s ∧
      Sexp.ofNode .canonical (.function (isAmong ⟨0⟩ ⟨0⟩)) = .ok t ∧
      s.mergeAtomZeros = t.mergeAtomZeros ∧ ¬s.eqv t = true := by
  have hequal : (Node.function (isAmong ⟨0⟩ ⟨0x8000000000000000⟩)).numericEq
      (.function (isAmong ⟨0⟩ ⟨0⟩)) = true := by decide
  obtain ⟨-, s, t, hs, ht, hmerge, heqv, -⟩ := eqv_ofNode_of_numericEq hequal
  exact ⟨hequal, s, t, hs, ht, hmerge, fun h => absurd (heqv.1 h) (by decide)⟩

/-- The rows of a base relation in which an attribute equals a number. -/
def equalTo (x : Binary64) : Relation :=
  (Relation.base "t" ⟨[⟨"a", .float⟩]⟩).restrict
    (.equals (.attr ⟨"a", .float⟩) (.literal (.float x)))

/-- Comparison with 0.0 and comparison with -0.0 are equal trees, but their outputs differ. -/
theorem eqv_ofNode_signed_zeros :
    (equalTo ⟨0⟩).numericEq (equalTo ⟨0x8000000000000000⟩) = true ∧
    ∃ s t, Sexp.ofNode .canonical (.relation (equalTo ⟨0⟩)) = .ok s ∧
      Sexp.ofNode .canonical (.relation (equalTo ⟨0x8000000000000000⟩)) = .ok t ∧ s.eqv t = false :=
  ⟨by decide, _, _, Sexp.ofNode_relation _, Sexp.ofNode_relation _, by decide⟩

end RelAlg
