import RelAlg.Proofs.Sexp.Separation

/-!
# The canonical s-expression identifies a tree

Equality of s-expressions tells apart everything that can stand in one position of a
canonical output, so two trees have equal outputs exactly when they agree up to the kinds
of referenced attributes.

* `Sexp.separates_eqv`     : equality of s-expressions is such a comparison;
* `eqv_ofNode_iff_erased`  : equal outputs are equal trees up to erasure, for relations
  and for functions.
-/

namespace RelAlg

namespace Sexp

/-- Lists are equal when their elements are. -/
theorem eqvAll_iff_forall₂ {ss ts : List Sexp} :
    eqvAll ss ts = true ↔ List.Forall₂ (fun s t => s.eqv t = true) ss ts := by
  induction ss generalizing ts with
  | nil => cases ts <;> simp [eqvAll]
  | cons s ss ih => cases ts <;> simp [eqvAll, ih]

/-- Equality of s-expressions tells apart all that a translation can put in one position. -/
theorem separates_eqv : Separates (fun s t => s.eqv t = true) fun _ => true where
  list := by
    intro ss ts
    rw [eqv, eqvAll_iff_forall₂]
  isList := by
    intro s t h
    cases s <;> cases t <;> first | rfl | simp [eqv] at h
  symbol := by simp [eqv]
  string := by simp [eqv]
  kind := by simp [eqv]
  count := by simp [eqv]
  aliases := by simp [AliasSet.translate, eqv, Node.numericEq]
  scalar := by
    intro l m hl hm _ _
    cases l <;> cases m <;> simp_all [Literal.translate, Literal.isScalar, eqv]
  symbol_scalar := by
    intro a l hl
    cases l <;> simp_all [Literal.translate, Literal.isScalar, eqv]
  scalar_symbol := by
    intro a l hl
    cases l <;> simp_all [Literal.translate, Literal.isScalar, eqv]

end Sexp

/-- Two relations have equal canonical s-expressions exactly when they agree after the kinds
of their referenced attributes are erased, float literals being compared by their bits; so
do two functions. -/
theorem eqv_ofNode_iff_erased :
    (∀ a b : Relation, ∃ s t, Sexp.ofNode .canonical (.relation a) = .ok s ∧
      Sexp.ofNode .canonical (.relation b) = .ok t ∧ (s.eqv t = true ↔ a.erased = b.erased)) ∧
    (∀ f g : Function, ∃ s t, Sexp.ofNode .canonical (.function f) = .ok s ∧
      Sexp.ofNode .canonical (.function g) = .ok t ∧ (s.eqv t = true ↔ f.erased = g.erased)) := by
  have hall : ∀ l : Literal, (fun _ => true : Literal → Bool) l = true := fun _ => rfl
  constructor
  · intro a b
    refine ⟨a.translate, b.translate, Sexp.ofNode_relation a, Sexp.ofNode_relation b, ?_⟩
    exact Sexp.separates_eqv.relation (a.every_of_forall hall) (b.every_of_forall hall)
  · intro f g
    refine ⟨f.translate, g.translate, Sexp.ofNode_function f, Sexp.ofNode_function g, ?_⟩
    exact Sexp.separates_eqv.function (f.every_of_forall hall) (g.every_of_forall hall)

end RelAlg
