import RelAlg.Proofs.Sexp.Normal
import RelAlg.Proofs.Sexp.Text

/-!
# Reading s-expressions

A reader for printed s-expressions.  The first character of a word, or failing that its spelling as
a number or a keyword, says which atom it is; every other word is a symbol.  Symbols that would be
misread are written between bars, so what is read is what was printed, up to the normal form.

* `Sexp.readWord`                     : the atom in a word;
* `Sexp.readWord_atomText`            : the text of an atom is read as its normal form;
* `Sexp.read`                         : the reader;
* `Sexp.read_render_eq`               : reading a text, printed in either form, gives
  the normal form;
* `Sexp.render_unambiguous`           : two s-expressions have one text exactly when they have
  one normal form;
* `Sexp.render_eq_render_symbol_iff`  : what is printed like a symbol.
-/

namespace RelAlg

namespace Sexp

/-! ## Atoms -/

/-- The characters between bars, up to the bar that ends the text. -/
def unbar : List Char → Option (List Char)
  | [] => none
  | '|' :: rest => if rest.isEmpty then some [] else none
  | '\\' :: c :: rest => (unbar rest).map (c :: ·)
  | c :: rest => (unbar rest).map (c :: ·)

/-- A whole number is signed if there is room, and unsigned if there is room there. -/
def readWhole (n : Int) : Option Normal :=
  if -0x8000000000000000 ≤ n ∧ n ≤ 0x7FFFFFFFFFFFFFFF then some (.integer (Int64.ofInt n))
  else if 0 ≤ n ∧ n ≤ 0xFFFFFFFFFFFFFFFF then some (.unsigned (UInt64.ofNat n.toNat))
  else none

/-- A word without a special character at its front. -/
def readBare (w : List Char) : Option Normal :=
  if Symbol.isDigits (Symbol.dropSign w) then readWhole (Spelling.exponentValue w)
  else if Symbol.readsAsNumber w then some (.float w)
  else if w = "nil".toList then some .null
  else if w = "true".toList then some (.boolean true)
  else if w = "false".toList then some (.boolean false)
  else some (.symbol (String.ofList w))

/-- The atom in a word. -/
def readWord : List Char → Option Normal
  | '"' :: rest =>
    match Scan.string rest with
    | some (some s, []) => some (.string s)
    | _ => none
  | '|' :: rest => (unbar rest).map fun name => .symbol (String.ofList name)
  | '#' :: rest => some (.node rest)
  | w => readBare w

/-- Only three first characters are special. -/
theorem readWord_of_head {c : Char} {w : List Char} (h : c ∉ ['"', '|', '#']) :
    readWord (c :: w) = readBare (c :: w) := by
  simp only [List.mem_cons, List.not_mem_nil, or_false, not_or] at h
  unfold readWord
  split <;> simp_all

/-! ## Strings and symbols -/

theorem readWord_quoted (s : String) : readWord (Quoted.text s) = some (.string s) := by
  show readWord ('"' :: (Quoted.body s.toList ++ ['"'])) = _
  rw [readWord, Scan.string_body]

/-- Taking the bars off gives the name back. -/
theorem unbar_escape (name : List Char) :
    unbar (name.flatMap Symbol.escape ++ ['|']) = some name := by
  induction name with
  | nil => rfl
  | cons c name ih =>
    rw [List.flatMap_cons, List.append_assoc]
    generalize name.flatMap Symbol.escape ++ ['|'] = rest at ih
    unfold Symbol.escape
    split
    · show unbar ('\\' :: c :: rest) = _
      rw [unbar, ih]
      rfl
    · rename_i hc
      simp only [not_or] at hc
      show unbar (c :: rest) = _
      rw [unbar, ih]
      · rfl
      · exact hc.1
      · rintro d rest rfl
        exact (hc.2 rfl).elim

/-- A whole number reads as a number. -/
theorem readsAsNumber_of_isDigits {w : List Char} (h : Symbol.isDigits (Symbol.dropSign w) = true) :
    Symbol.readsAsNumber w = true := by
  simp only [Symbol.isDigits, Bool.and_eq_true, Bool.not_eq_true', List.all_eq_true] at h
  have htake : (Symbol.dropSign w).takeWhile Char.isDigit = Symbol.dropSign w :=
    List.takeWhile_eq_self_iff.2 h.2
  have hdrop : (Symbol.dropSign w).dropWhile Char.isDigit = [] :=
    List.dropWhile_eq_nil_iff.2 h.2
  have hdecimal : Symbol.isDecimal (Symbol.dropSign w) = true := by
    simp [Symbol.isDecimal, htake, hdrop, Symbol.isExponent, h.1]
  rw [Symbol.readsAsNumber, hdecimal]
  rfl

/-- A name that needs no bars is read as a symbol. -/
theorem readWord_of_not_needsBars {w : List Char} (h : Symbol.needsBars w = false) :
    readWord w = some (.symbol (String.ofList w)) := by
  simp only [Symbol.needsBars, Bool.or_eq_false_iff] at h
  obtain ⟨⟨⟨⟨hne, hhash⟩, hkeyword⟩, hnumber⟩, hspecial⟩ := h
  have hdigits : ¬Symbol.isDigits (Symbol.dropSign w) = true := fun hd => by
    rw [readsAsNumber_of_isDigits hd] at hnumber
    cases hnumber
  have hkeywords : w ≠ "nil".toList ∧ w ≠ "true".toList ∧ w ≠ "false".toList := by
    simpa using hkeyword
  have hhead : readWord w = readBare w := by
    cases w with
    | nil => cases hne
    | cons c w =>
      refine readWord_of_head fun hmem => ?_
      rcases List.mem_cons.1 hmem with rfl | hmem
      · cases hspecial
      rcases List.mem_cons.1 hmem with rfl | hmem
      · cases hspecial
      rcases List.mem_singleton.1 hmem with rfl
      cases hhash
  rw [hhead, readBare, if_neg hdigits, hnumber, if_neg Bool.false_ne_true, if_neg hkeywords.1,
    if_neg hkeywords.2.1, if_neg hkeywords.2.2]

theorem readWord_symbol (name : String) :
    readWord (Symbol.text name) = some (.symbol name) := by
  unfold Symbol.text
  dsimp only
  split
  · show (unbar _).map _ = _
    rw [unbar_escape, Option.map_some, String.ofList_toList]
  · rename_i h
    rw [readWord_of_not_needsBars (by simpa using h), String.ofList_toList]

/-! ## Numbers -/

/-- A word that starts with a digit or a minus sign is not special. -/
theorem readWord_of_digit_or_minus {w : List Char} (hne : w ≠ [])
    (h : ∀ c ∈ w.head?, c.isDigit = true ∨ c = '-') : readWord w = readBare w := by
  obtain ⟨c, rest, rfl⟩ := List.exists_cons_of_ne_nil hne
  exact readWord_of_head (Numeral.notMem_of_digit_or_minus (by decide) (h c rfl))

/-- A numeral is the spelling of its number. -/
theorem ofInt_spelled (n : Int) : Symbol.isDigits (Symbol.dropSign (Numeral.ofInt n)) = true ∧
    Spelling.exponentValue (Numeral.ofInt n) = n := by
  have hspelled := Layout.exponent_spelled Layout.signs_expression n
  have hplus : (if n < 0 then [] else Layout.expression.plus) = [] := by split <;> rfl
  rwa [hplus, List.nil_append] at hspelled

/-- A numeral is read as its number. -/
theorem readWord_ofInt (n : Int) : readWord (Numeral.ofInt n) = readWhole n := by
  rw [readWord_of_digit_or_minus (Numeral.ofInt_ne_nil n) fun c hc =>
    Numeral.isDigit_or_eq_minus_of_mem_ofInt (List.mem_of_mem_head? hc)]
  rw [readBare, if_pos (ofInt_spelled n).1, (ofInt_spelled n).2]

/-- A signed number has room among the whole numbers that are read. -/
theorem readWhole_toInt (n : Int64) : readWhole n.toInt = some (.integer n) := by
  have hlow := n.le_toInt
  have hhigh := n.toInt_lt
  rw [readWhole, if_pos (by omega), Int64.ofInt_toInt]

/-- An unsigned number is read as a signed one if there is room. -/
theorem readWhole_toNat (n : UInt64) : readWhole n.toNat = some (unsigned n).normal := by
  have hlt := n.toNat_lt
  rw [readWhole, normal]
  by_cases h : n.toNat ≤ 0x7FFFFFFFFFFFFFFF
  · rw [if_pos (by omega), if_pos h]
    rfl
  · rw [if_neg (by omega), if_pos (by omega), if_neg h, Int.toNat_natCast, UInt64.ofNat_toNat]

theorem readWord_integer (n : Int64) : readWord (Numeral.ofInt n.toInt) = some (.integer n) := by
  rw [readWord_ofInt, readWhole_toInt]

theorem readWord_unsigned (n : UInt64) :
    readWord (Numeral.ofNat n.toNat) = some (unsigned n).normal := by
  rw [← Numeral.ofInt_natCast, readWord_ofInt, readWhole_toNat]

/-- The text of a finite float reads as a number. -/
theorem readsAsNumber_text {l : Layout} (hl : l.Signs) {x : Binary64} (hx : x.isFinite = true) :
    Symbol.readsAsNumber (l.text x) = true := by
  obtain ⟨s, hs, -⟩ := Layout.exists_spelling_magnitude hl x
  have hdrop : Symbol.dropSign (l.text x) = s.text := by
    rw [l.text_of_isFinite hx, ← hs]
    cases x.isNegative with
    | true => rfl
    | false => exact s.dropSign_text
  rw [Symbol.readsAsNumber, hdrop, s.isDecimal_text]
  rfl

/-- The text of a finite float does not read as a whole number. -/
theorem not_isDigits_text {l : Layout} (hl : l.Signs) {x : Binary64} (hx : x.isFinite = true) :
    ¬Symbol.isDigits (Symbol.dropSign (l.text x)) = true := by
  intro h
  simp only [Symbol.isDigits, Bool.and_eq_true, List.all_eq_true] at h
  have hmark : ∀ c, c = '.' ∨ c = 'e' → c ∉ l.text x := by
    intro c hc hmem
    have hdrop : c ∈ Symbol.dropSign (l.text x) := by
      rcases hc with rfl | rfl <;> exact Symbol.mem_dropSign (by decide) (by decide) hmem
    have := h.2 c hdrop
    rcases hc with rfl | rfl <;> exact absurd this (by decide)
  rcases Layout.mark_mem_text hl hx with hc | hc
  · exact hmark _ (Or.inl rfl) hc
  · exact hmark _ (Or.inr rfl) hc

/-- The text of a float is read as a float with that text. -/
theorem readWord_float (x : Binary64) :
    readWord (Layout.expression.text x) = some (.float (Layout.expression.text x)) := by
  cases hx : x.isFinite with
  | true =>
    rw [readWord_of_digit_or_minus (Layout.text_ne_nil Layout.signs_expression hx)
        (Layout.head_text Layout.signs_expression hx), readBare,
      if_neg (not_isDigits_text Layout.signs_expression hx),
      if_pos (readsAsNumber_text Layout.signs_expression hx)]
  | false =>
    have h := Layout.text_of_not_isFinite Layout.expression hx
    simp only [List.mem_cons, List.not_mem_nil, or_false] at h
    rcases h with h | h | h <;> rw [h] <;> rfl

/-- The text of an atom is read as its normal form. -/
theorem readWord_atomText {s : Sexp} (hs : s.isAtom = true) :
    readWord s.atomText = some s.normal := by
  cases s with
  | list items => cases hs
  | symbol name => exact readWord_symbol name
  | string s => exact readWord_quoted s
  | integer n => exact readWord_integer n
  | unsigned n => exact readWord_unsigned n
  | float x => exact readWord_float x
  | boolean b => cases b <;> rfl
  | null => rfl
  | kind k =>
    show readWord k.displayName.toList = some (.symbol k.displayName)
    rw [readWord_of_not_needsBars (needsBars_displayName k), String.ofList_toList]
  | node n => rfl

/-! ## The reader -/

mutual

/-- The normal form in a tree of words. -/
def Normal.ofTree : Tree → Option Normal
  | .word w => readWord w
  | .group _ parts => (Normal.ofTrees parts).map .list

def Normal.ofTrees : List Tree → Option (List Normal)
  | [] => some []
  | t :: rest => do
    let n ← Normal.ofTree t
    let ns ← Normal.ofTrees rest
    return n :: ns

end

/-- The normal form in a text, `none` if it is not the text of one s-expression. -/
def read (text : String) : Option Normal :=
  lexicon.read text.toList >>= Normal.ofTree

theorem ofTree_of_isAtom {s : Sexp} (hs : s.isAtom = true) :
    Normal.ofTree s.tree = some s.normal := by
  rw [tree_of_isAtom hs, Normal.ofTree, readWord_atomText hs]

mutual

/-- The words of an s-expression are read as its normal form. -/
theorem ofTree_tree : ∀ s : Sexp, Normal.ofTree s.tree = some s.normal
  | list ss => by
    rw [tree, Normal.ofTree, ofTrees_trees ss]
    rfl
  | symbol _ | string _ | integer _ | unsigned _ | float _ | boolean _ | null | kind _
  | node _ => ofTree_of_isAtom rfl

theorem ofTrees_trees : ∀ ss : List Sexp, Normal.ofTrees (trees ss) = some (normals ss)
  | [] => rfl
  | s :: rest => by
    rw [trees, Normal.ofTrees, ofTree_tree s, ofTrees_trees rest]
    rfl

end

/-- Reading a text, printed in either form, gives the normal form. -/
theorem read_render_eq (s : Sexp) (isPretty : Bool) :
    read (s.render isPretty) = some s.normal := by
  rw [read, tree_render]
  exact ofTree_tree s

/-- Two s-expressions have one text exactly when they have one normal form. -/
theorem render_eq_iff (isPretty : Bool) {s t : Sexp} :
    s.render isPretty = t.render isPretty ↔ s.normal = t.normal := by
  refine ⟨fun h => ?_, render_eq_of_normal_eq isPretty⟩
  have hs := read_render_eq s isPretty
  rw [h, read_render_eq t isPretty] at hs
  exact (Option.some.inj hs).symm

/-- One reader gives the normal form of every s-expression back, from the text on one line and from
the text over several lines.  So two s-expressions have the same text on one line, or the same text
over several lines, exactly when their normal forms are equal. -/
theorem render_unambiguous :
    (∀ s : Sexp, read (s.render false) = some s.normal ∧ read (s.render true) = some s.normal) ∧
    ∀ s t : Sexp, (s.render false = t.render false ↔ s.normal = t.normal) ∧
      (s.render true = t.render true ↔ s.normal = t.normal) :=
  ⟨fun s => ⟨read_render_eq s false, read_render_eq s true⟩,
    fun _ _ => ⟨render_eq_iff false, render_eq_iff true⟩⟩

/-! ## Symbols among the texts -/

/-- Only symbols and kinds have the normal form of a symbol. -/
theorem normal_eq_symbol_iff {s : Sexp} {name : String} :
    s.normal = .symbol name ↔ s = .symbol name ∨ ∃ k, s = .kind k ∧ k.displayName = name := by
  cases s with
  | unsigned n =>
    rw [normal]
    split <;> simp
  | _ => simp [normal]

/-- The text of a symbol is the text of no other s-expression, be it another symbol, an atom
of another sort or a list, except that the name of an attribute kind, as a symbol, has the
text of that kind. -/
theorem render_eq_render_symbol_iff (isPretty : Bool) (name : String) (s : Sexp) :
    s.render isPretty = (symbol name).render isPretty ↔
      s = .symbol name ∨ ∃ k, s = .kind k ∧ k.displayName = name := by
  rw [render_eq_iff]
  exact normal_eq_symbol_iff

/-- An attribute that is called `Integer` and the kind of integers have one text. -/
theorem render_symbol_integer :
    (kind .integer).render false = (symbol "Integer").render false ∧
    (kind .integer).render true = (symbol "Integer").render true :=
  ⟨render_eq_of_normal_eq false rfl, render_eq_of_normal_eq true rfl⟩

end Sexp

end RelAlg
