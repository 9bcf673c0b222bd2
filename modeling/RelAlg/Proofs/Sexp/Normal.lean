import Mathlib.Data.List.Forall2
import RelAlg.Sexp.Text

/-!
# What the text of an s-expression shows

Printed text does not show everything: an attribute kind looks like a symbol, a small unsigned
number like a signed one, a float is its digits and a node is its document.  The normal form forgets
exactly that, and the text depends on nothing else.

* `Sexp.Normal`, `Sexp.normal`       : normal forms, and the normal form of an s-expression;
* `Sexp.Normal.atomText`             : the text of an atom is read off its normal form;
* `Sexp.render_eq_of_normal_eq`      : s-expressions with one normal form have one text,
  in both forms.
-/

namespace RelAlg

theorem AttributeKind.displayName_inj {j k : AttributeKind} :
    j.displayName = k.displayName ↔ j = k := by
  cases j <;> cases k <;> decide

namespace Sexp

/-! ## Normal forms -/

/-- An s-expression up to what its text shows. -/
inductive Normal where
  | list (items : List Normal)
  | symbol (name : String)
  | string (s : String)
  | integer (n : Int64)
  | unsigned (n : UInt64)
  /-- A float with its text in place of its bits. -/
  | float (text : List Char)
  | boolean (b : Bool)
  | null
  /-- A node with its document on one line in its place. -/
  | node (text : List Char)

mutual

/-- The normal form: kinds become symbols, unsigned numbers become signed ones if there is room. -/
def normal : Sexp → Normal
  | list items => .list (normals items)
  | symbol name => .symbol name
  | string s => .string s
  | integer n => .integer n
  | unsigned n =>
    if n.toNat ≤ 0x7FFFFFFFFFFFFFFF then .integer (Int64.ofNat n.toNat) else .unsigned n
  | float x => .float (Layout.expression.text x)
  | boolean b => .boolean b
  | null => .null
  | kind k => .symbol k.displayName
  | node n => .node n.toDocument.compact

def normals : List Sexp → List Normal
  | [] => []
  | s :: rest => normal s :: normals rest

end

/-! ## Atoms -/

namespace Normal

def isAtom : Normal → Bool
  | list _ => false
  | _ => true

/-- The text of an atom; a list has none. -/
def atomText : Normal → List Char
  | list _ => []
  | symbol name => Symbol.text name
  | string s => Quoted.text s
  | integer n => Numeral.ofInt n.toInt
  | unsigned n => Numeral.ofNat n.toNat
  | float text => text
  | boolean true => ['t', 'r', 'u', 'e']
  | boolean false => ['f', 'a', 'l', 's', 'e']
  | null => ['n', 'i', 'l']
  | node text => '#' :: text

end Normal

theorem isAtom_normal (s : Sexp) : s.normal.isAtom = s.isAtom := by
  cases s with
  | unsigned n =>
    rw [normal]
    split <;> rfl
  | _ => rfl

/-- The name of a kind is written as it is. -/
theorem needsBars_displayName (k : AttributeKind) :
    Symbol.needsBars k.displayName.toList = false := by
  cases k <;> decide

/-- An unsigned number with room in the signed ones keeps its value. -/
theorem toInt_ofNat {n : Nat} (h : n ≤ 0x7FFFFFFFFFFFFFFF) : (Int64.ofNat n).toInt = n :=
  Int64.toInt_ofNat_of_lt (by omega)

/-- The text of an atom depends on its normal form only. -/
theorem atomText_normal (s : Sexp) : s.normal.atomText = s.atomText := by
  cases s with
  | unsigned n =>
    rw [normal]
    split
    · rename_i h
      rw [Normal.atomText, toInt_ofNat h, Numeral.ofInt, if_neg (by omega), Int.natAbs_natCast]
      rfl
    · rfl
  | kind k =>
    rw [normal, Normal.atomText, Symbol.text, needsBars_displayName]
    rfl
  | boolean b => cases b <;> rfl
  | _ => rfl

/-! ## Texts -/

/-- Two s-expressions that are laid out in the same way, wherever they occur. -/
structure SameText (s t : Sexp) : Prop where
  isAtom : s.isAtom = t.isAtom
  atomText : s.atomText = t.atomText
  depth : s.depth = t.depth
  compact : s.compact = t.compact
  pretty : ∀ column, s.pretty column = t.pretty column

/-- An atom on a line is its text in both forms. -/
theorem layout_of_isAtom {s : Sexp} (hs : s.isAtom = true) :
    s.depth = 0 ∧ s.compact = s.atomText ∧ ∀ column, s.pretty column = s.atomText := by
  cases s with
  | list items => cases hs
  | _ => exact ⟨rfl, rfl, fun _ => rfl⟩

/-- The normal form decides how an atom is laid out. -/
theorem sameText_of_isAtom {s t : Sexp} (hs : s.isAtom = true) (h : s.normal = t.normal) :
    SameText s t := by
  have hatom : s.isAtom = t.isAtom := by rw [← isAtom_normal, h, isAtom_normal]
  have htext : s.atomText = t.atomText := by rw [← atomText_normal, h, atomText_normal]
  obtain ⟨hsdepth, hscompact, hspretty⟩ := layout_of_isAtom hs
  obtain ⟨htdepth, htcompact, htpretty⟩ := layout_of_isAtom (hatom ▸ hs)
  exact ⟨hatom, htext, hsdepth.trans htdepth.symm, by rw [hscompact, htcompact, htext],
    fun column => by rw [hspretty, htpretty, htext]⟩

section Lists

variable {ss ts : List Sexp}

theorem depthAll_eq (h : List.Forall₂ SameText ss ts) : depthAll ss = depthAll ts := by
  induction h with
  | nil => rfl
  | cons hst _ ih => rw [depthAll, depthAll, hst.depth, ih]

theorem compactRest_eq (h : List.Forall₂ SameText ss ts) : compactRest ss = compactRest ts := by
  induction h with
  | nil => rfl
  | cons hst _ ih => rw [compactRest, compactRest, hst.compact, ih]

theorem prettyLines_eq (column : Nat) (h : List.Forall₂ SameText ss ts) :
    prettyLines column ss = prettyLines column ts := by
  induction h with
  | nil => rfl
  | cons hst _ ih => rw [prettyLines, prettyLines, hst.pretty, ih]

theorem prettyLeading_eq (column : Nat) (h : List.Forall₂ SameText ss ts) :
    prettyLeading column ss = prettyLeading column ts := by
  induction h with
  | nil => rfl
  | cons hst hrest ih =>
    rw [prettyLeading, prettyLeading, hst.isAtom, hst.atomText, hst.pretty, ih,
      prettyLines_eq column hrest]

/-- Lists of parts that are laid out in the same way are so themselves. -/
theorem SameText.list (h : List.Forall₂ SameText ss ts) : SameText (.list ss) (.list ts) := by
  have hcompact : Sexp.compact (.list ss) = Sexp.compact (.list ts) := by
    cases h with
    | nil => rfl
    | cons hst hrest => rw [Sexp.compact, Sexp.compact, hst.compact, compactRest_eq hrest]
  refine ⟨rfl, rfl, by rw [Sexp.depth, Sexp.depth, depthAll_eq h], hcompact, fun column => ?_⟩
  have hdepth := depthAll_eq h
  cases h with
  | nil => rfl
  | cons hst hrest =>
    rw [Sexp.pretty, Sexp.pretty, hdepth, hcompact, hst.isAtom, hst.atomText, hst.pretty,
      prettyLeading_eq _ hrest, prettyLines_eq _ hrest]

end Lists

mutual

/-- S-expressions with one normal form are laid out in the same way. -/
theorem sameText_of_normal_eq : ∀ s t : Sexp, s.normal = t.normal → SameText s t
  | .list ss, t, h => by
    have ht : t.isAtom = false := by rw [← isAtom_normal, ← h]; rfl
    cases t with
    | list ts => exact SameText.list (forall₂_sameText ss ts (Normal.list.inj h))
    | _ => cases ht
  | .symbol _, _, h | .string _, _, h | .integer _, _, h | .unsigned _, _, h | .float _, _, h
  | .boolean _, _, h | .null, _, h | .kind _, _, h | .node _, _, h => sameText_of_isAtom rfl h

theorem forall₂_sameText : ∀ ss ts : List Sexp, normals ss = normals ts →
    List.Forall₂ SameText ss ts
  | [], [], _ => .nil
  | s :: ss, t :: ts, h =>
    .cons (sameText_of_normal_eq s t (List.cons.inj h).1)
      (forall₂_sameText ss ts (List.cons.inj h).2)

end

/-- S-expressions with one normal form have one text. -/
theorem render_eq_of_normal_eq {s t : Sexp} (isPretty : Bool) (h : s.normal = t.normal) :
    s.render isPretty = t.render isPretty := by
  have hst := sameText_of_normal_eq s t h
  rw [render, render, hst.compact, hst.pretty]

end Sexp

end RelAlg
