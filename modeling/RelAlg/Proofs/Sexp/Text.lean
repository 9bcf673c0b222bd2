import RelAlg.Proofs.Document.Text
import RelAlg.Sexp.Text

/-!
# The text of an s-expression

Printed s-expressions are bracketed text.  A list is a group and an atom is one word, also a symbol
between bars, a string and a node with blanks, brackets and line feeds inside.  Breaking a list over
lines changes only the blanks between words, so both forms spell the same tree.

* `Sexp.lexicon`       : the special characters of s-expressions;
* `Sexp.isWord_atomText`: every atom is one word;
* `Sexp.tree`          : the groups and words of an s-expression;
* `Sexp.spells_compact`, `Sexp.spells_pretty`: both forms spell that tree.
-/

namespace RelAlg

namespace Sexp

/-! ## Special characters -/

/-- Parentheses, bars and quotes; line feeds and blanks between words. -/
def lexicon : Lexicon where
  separates c := [' ', '\n'].contains c
  opens c := c == '('
  closes c := c == ')'
  quotes c := ['"', '|'].contains c

theorem isPlain_of_notMem {c : Char} (h : c ∉ [' ', '\n', '(', ')', '"', '|']) :
    lexicon.isPlain c = true := by
  simp only [List.mem_cons, List.not_mem_nil, or_false, not_or] at h
  simp [Lexicon.isPlain, Lexicon.cuts, lexicon, h]

theorem takesNumbers : lexicon.TakesNumbers :=
  Lexicon.takesNumbers_of_notMem (fun _ => isPlain_of_notMem) (by decide)

theorem parentheses : lexicon.Brackets '(' ')' := ⟨rfl, rfl, rfl, rfl, rfl⟩

/-! ## Atoms as words -/

/-- The characters of a bare symbol are plain. -/
theorem isPlain_of_not_isSpecial {c : Char} (h : Symbol.isSpecial c = false) :
    lexicon.isPlain c = true := by
  refine isPlain_of_notMem fun hmem => ?_
  have hspecial : ∀ d ∈ [' ', '\n', '(', ')', '"', '|'], Symbol.isSpecial d = true :=
    List.all_eq_true.1 (by decide)
  rw [hspecial c hmem] at h
  cases h

/-- A character between bars does not end the symbol. -/
theorem run_symbolEscape (c : Char) :
    lexicon.run (.quoted '|') (Symbol.escape c) = some (.quoted '|') := by
  unfold Symbol.escape
  split
  · rfl
  · rename_i h
    simp only [not_or] at h
    simp [Lexicon.run, Lexicon.next, h.1, h.2]

theorem isWord_symbol (name : String) : lexicon.IsWord (Symbol.text name) := by
  unfold Symbol.text
  dsimp only
  split
  · exact ⟨Lexicon.run_quoted rfl rfl (by decide) (Lexicon.run_flatMap fun c _ =>
      run_symbolEscape c), List.cons_ne_nil _ _⟩
  · rename_i hbare
    simp only [Symbol.needsBars, Bool.or_eq_true, not_or, List.any_eq_true, not_exists, not_and,
      List.isEmpty_iff, Bool.not_eq_true] at hbare
    exact Lexicon.isWord_of_forall hbare.1.1.1.1 fun c hc =>
      isPlain_of_not_isSpecial (hbare.2 c hc)

theorem isWord_quoted (s : String) : lexicon.IsWord (Quoted.text s) :=
  Quoted.isWord_text rfl rfl s

/-- The three words for a value that is not finite, and numerals, are words of both formats. -/
theorem isWord_float (x : Binary64) : lexicon.IsWord (Layout.expression.text x) := by
  cases hx : x.isFinite with
  | true => exact Layout.isWord_text takesNumbers Layout.signs_expression hx
  | false =>
    have hwords : ∀ w ∈ [Layout.expression.nan, Layout.expression.infinity,
        Layout.expression.negativeInfinity], w ≠ [] ∧ w.all lexicon.isPlain = true := by
      decide
    have h := hwords _ (Layout.text_of_not_isFinite Layout.expression hx)
    exact Lexicon.isWord_of_forall h.1 (List.all_eq_true.1 h.2)

theorem isWord_kind (k : AttributeKind) : lexicon.IsWord k.displayName.toList := by
  have hplain : k.displayName.toList ≠ [] ∧ k.displayName.toList.all lexicon.isPlain = true := by
    cases k <;> decide
  exact Lexicon.isWord_of_forall hplain.1 (List.all_eq_true.1 hplain.2)

/-! ## Documents as words -/

mutual

/-- A document on one line stays within one word: blanks occur in its strings only. -/
theorem run_write : ∀ d : Document, lexicon.run .plain (d.write none) = some .plain
  | .null | .unreadable | .broken | .boolean true | .boolean false => rfl
  | .integer n => (Numeral.isWord_ofInt takesNumbers n).1
  | .minusZero => Lexicon.run_append_plain (v := ['-']) rfl
      (Numeral.isWord_ofNat takesNumbers 0).1
  | .float x => by
    cases hx : x.isFinite with
    | true => exact (Layout.isWord_text takesNumbers Layout.signs_document hx).1
    | false =>
      rw [Document.write, Document.float_text_of_not_isFinite hx]
      rfl
  | .string s => (isWord_quoted s).1
  | .array [] => rfl
  | .array (d :: rest) =>
    Lexicon.run_append_plain (v := ['[']) rfl <|
      Lexicon.run_append_plain (Lexicon.run_append_plain (Lexicon.run_append_plain (run_write d)
        (run_writeItems rest)) rfl) rfl
  | .object [] => rfl
  | .object ((k, d) :: rest) =>
    Lexicon.run_append_plain (v := ['{']) rfl <|
      Lexicon.run_append_plain (Lexicon.run_append_plain (Lexicon.run_append_plain
        (Lexicon.run_append_plain (Lexicon.run_append_plain (isWord_quoted k.spelling).1 rfl)
          (run_write d)) (run_writeMembers rest)) rfl) rfl

theorem run_writeItems : ∀ items : List Document,
    lexicon.run .plain (Document.writeItems none items) = some .plain
  | [] => rfl
  | d :: rest =>
    Lexicon.run_append_plain (v := [',']) rfl
      (Lexicon.run_append_plain (run_write d) (run_writeItems rest))

theorem run_writeMembers : ∀ members : List (Key × Document),
    lexicon.run .plain (Document.writeMembers none members) = some .plain
  | [] => rfl
  | (k, d) :: rest =>
    Lexicon.run_append_plain (v := [',']) rfl
      (Lexicon.run_append_plain (Lexicon.run_append_plain
        (Lexicon.run_append_plain (isWord_quoted k.spelling).1 rfl) (run_write d))
        (run_writeMembers rest))

end

/-- Every atom is one word. -/
theorem isWord_atomText {s : Sexp} (hs : s.isAtom = true) : lexicon.IsWord s.atomText := by
  cases s with
  | list items => cases hs
  | symbol name => exact isWord_symbol name
  | string s => exact isWord_quoted s
  | integer n => exact Numeral.isWord_ofInt takesNumbers n.toInt
  | unsigned n => exact Numeral.isWord_ofNat takesNumbers n.toNat
  | float x => exact isWord_float x
  | boolean b => cases b <;> exact ⟨rfl, List.cons_ne_nil _ _⟩
  | null => exact ⟨rfl, List.cons_ne_nil _ _⟩
  | kind k => exact isWord_kind k
  | node n =>
    exact ⟨Lexicon.run_append_plain (v := ['#']) rfl (run_write n.toDocument),
      List.cons_ne_nil _ _⟩

/-! ## Trees -/

mutual

/-- The groups and words of an s-expression. -/
def tree : Sexp → Tree
  | list items => .group '(' (trees items)
  | s => .word s.atomText

def trees : List Sexp → List Tree
  | [] => []
  | s :: rest => tree s :: trees rest

end

theorem tree_of_isAtom {s : Sexp} (hs : s.isAtom = true) : s.tree = .word s.atomText := by
  cases s with
  | list items => cases hs
  | _ => rfl

theorem spells_atomText {s : Sexp} (hs : s.isAtom = true) :
    lexicon.Spells s.atomText s.tree := by
  rw [tree_of_isAtom hs]
  exact Lexicon.spells_word (isWord_atomText hs)

/-! ## On one line -/

theorem separates_blank : ∀ c ∈ [' '], lexicon.separates c = true :=
  List.forall_mem_singleton.2 rfl

mutual

/-- The text on one line spells the tree. -/
theorem spells_compact : ∀ s : Sexp, lexicon.Spells s.compact s.tree
  | list [] => Lexicon.spells_group_nil parentheses
  | list (s :: rest) => by
    have h := Lexicon.spells_group parentheses [] [] nofun nofun
      (spells_compact s) (spellsAll_compactRest rest)
    simpa only [compact, tree, trees, List.nil_append, List.append_assoc] using h
  | symbol _ | string _ | integer _ | unsigned _ | float _ | boolean _ | null | kind _
  | node _ => spells_atomText rfl

theorem spellsAll_compactRest : ∀ ss : List Sexp, lexicon.SpellsAll (compactRest ss) (trees ss)
  | [] => Lexicon.spellsAll_nil
  | s :: rest =>
    Lexicon.spellsAll_cons [' '] (List.cons_ne_nil _ _) separates_blank (spells_compact s)
      (spellsAll_compactRest rest)

end

/-! ## Over several lines -/

theorem separates_newLine (column : Nat) : ∀ c ∈ newLine column, lexicon.separates c = true := by
  refine List.forall_mem_cons.2 ⟨rfl, fun c hc => ?_⟩
  rw [List.eq_of_mem_replicate hc]
  rfl

mutual

/-- The text over several lines spells the tree, wherever it starts. -/
theorem spells_pretty : ∀ (column : Nat) (s : Sexp), lexicon.Spells (s.pretty column) s.tree
  | _, list [] => Lexicon.spells_group_nil parentheses
  | column, list (s :: rest) => by
    rw [pretty]
    split
    · exact spells_compact (list (s :: rest))
    · split
      · rename_i hs
        have h := Lexicon.spells_group parentheses [] [] nofun nofun
          (spells_atomText hs) (spellsAll_prettyLeading (column + 2) rest)
        simpa only [tree, trees, List.nil_append, List.append_assoc] using h
      · have h := Lexicon.spells_group parentheses [] [] nofun nofun
          (spells_pretty (column + 1) s) (spellsAll_prettyLines (column + 1) rest)
        simpa only [tree, trees, List.nil_append, List.append_assoc] using h
  | _, symbol _ | _, string _ | _, integer _ | _, unsigned _ | _, float _ | _, boolean _
  | _, null | _, kind _ | _, node _ => spells_atomText rfl

theorem spellsAll_prettyLeading : ∀ (column : Nat) (ss : List Sexp),
    lexicon.SpellsAll (prettyLeading column ss) (trees ss)
  | _, [] => Lexicon.spellsAll_nil
  | column, s :: rest => by
    rw [prettyLeading]
    split
    · rename_i hs
      exact Lexicon.spellsAll_cons [' '] (List.cons_ne_nil _ _) separates_blank
        (spells_atomText hs) (spellsAll_prettyLeading column rest)
    · have h := Lexicon.spellsAll_cons (newLine column) (List.cons_ne_nil _ _)
        (separates_newLine column) (spells_pretty column s) (spellsAll_prettyLines column rest)
      simpa only [trees, List.append_assoc] using h

theorem spellsAll_prettyLines : ∀ (column : Nat) (ss : List Sexp),
    lexicon.SpellsAll (prettyLines column ss) (trees ss)
  | _, [] => Lexicon.spellsAll_nil
  | column, s :: rest => by
    have h := Lexicon.spellsAll_cons (newLine column) (List.cons_ne_nil _ _)
      (separates_newLine column) (spells_pretty column s) (spellsAll_prettyLines column rest)
    simpa only [prettyLines, trees, List.append_assoc] using h

end

/-- Both forms of the text are read as the tree. -/
theorem tree_render (isPretty : Bool) (s : Sexp) :
    lexicon.read (s.render isPretty).toList = some s.tree := by
  rw [render, String.toList_ofList]
  cases isPretty
  · exact Lexicon.read_of_spells (spells_compact s)
  · exact Lexicon.read_of_spells (spells_pretty 0 s)

end Sexp

end RelAlg
