import RelAlg.Emit
import RelAlg.Proofs.Sexp.Reader
import RelAlg.Proofs.Sexp.Separation

/-!
# The emitted text identifies a tree

Neither output is injective on s-expressions: a count looks like an integer, a kind like a symbol in
text and like a string in JSON.  But no two such atoms can stand in one position of a canonical
output, and no name or string, however it is spelled, looks like anything else.  So the text
determines the tree up to the kinds of referenced attributes, in both formats and in both forms.

* `Literal.isRegular`      : literals as readers and conversions make them;
* `Sexp.separates_normal`  : s-expression text tells apart what can stand in one position;
* `Sexp.separates_tree`    : so do documents;
* `emit_eq_iff_erased`     : two relations have one text exactly when they agree up to erasure.
-/

namespace RelAlg

/-- A float is finite, and an unsigned number has no room among the signed ones. -/
def Literal.isRegular : Literal → Bool
  | .float x => x.isFinite
  | .unsigned n => decide (0x7FFFFFFFFFFFFFFF < n.toNat)
  | _ => true

/-! ## Documents of aliases -/

theorem Document.tree_string_inj {s t : String} :
    (Document.string s).tree = (Document.string t).tree ↔ s = t := by
  show Tree.word (Quoted.text s) = .word (Quoted.text t) ↔ s = t
  rw [Tree.word.injEq, Quoted.text_inj]

/-- The pairs of an alias set can be read off its document. -/
theorem AliasSet.trees_inj {l m : List (String × String)}
    (h : Document.trees (l.map fun (old, new) => .array [.string old, .string new])
      = Document.trees (m.map fun (old, new) => .array [.string old, .string new])) : l = m := by
  induction l generalizing m with
  | nil =>
    cases m with
    | nil => rfl
    | cons p m => simp [Document.trees] at h
  | cons p l ih =>
    cases m with
    | nil => simp [Document.trees] at h
    | cons q m =>
      simp only [List.map_cons, Document.trees, Document.tree, List.cons.injEq,
        Tree.group.injEq, true_and, and_true] at h
      obtain ⟨⟨hold, hnew⟩, hrest⟩ := h
      have hp : p = q :=
        Prod.ext (Document.tree_string_inj.1 hold) (Document.tree_string_inj.1 hnew)
      rw [hp, ih hrest]

theorem AliasSet.tree_inj {s t : AliasSet} :
    (Node.aliases s).toDocument.tree = (Node.aliases t).toDocument.tree ↔ s = t := by
  refine ⟨fun h => ?_, fun h => h ▸ rfl⟩
  cases s
  cases t
  simp only [Node.toDocument, Document.ofFields, List.map_cons, List.map_nil, Document.tree,
    Document.memberTrees, AliasSet.toDocument, Tree.group.injEq, List.cons.injEq, true_and,
    and_true] at h
  exact congrArg AliasSet.mk (AliasSet.trees_inj h)

namespace Sexp

/-! ## Text -/

theorem normals_eq_iff_forall₂ {ss ts : List Sexp} :
    normals ss = normals ts ↔ List.Forall₂ (fun s t => s.normal = t.normal) ss ts := by
  induction ss generalizing ts with
  | nil => cases ts <;> simp [normals]
  | cons s ss ih => cases ts <;> simp [normals, ih]

/-- Unsigned numbers with one normal form are the same. -/
theorem normal_unsigned_inj {m n : UInt64} :
    (unsigned m).normal = (unsigned n).normal ↔ m = n := by
  refine ⟨fun h => ?_, fun h => h ▸ rfl⟩
  have htext := congrArg Normal.atomText h
  rw [atomText_normal, atomText_normal, atomText, atomText, ← Numeral.ofInt_natCast,
    ← Numeral.ofInt_natCast] at htext
  exact Numeral.ofInt_toNat_inj.1 htext

theorem normal_aliases_inj {s t : AliasSet} :
    (node (.aliases s)).normal = (node (.aliases t)).normal ↔ s = t := by
  refine ⟨fun h => ?_, fun h => h ▸ rfl⟩
  exact AliasSet.tree_inj.1 (Document.tree_eq_of_write_eq (Normal.node.inj h))

/-- No literal is a symbol. -/
theorem normal_ne_symbol {a : String} {l : Literal} (hl : l.isScalar = true) :
    l.translate.normal ≠ .symbol a := by
  intro h
  cases l with
  | unsigned n =>
    rw [Literal.translate, normal] at h
    split at h <;> cases h
  | array items => cases hl
  | _ => cases h

/-- A regular unsigned number keeps its sort. -/
theorem normal_unsigned_of_isRegular {n : UInt64} (h : (Literal.unsigned n).isRegular = true) :
    (unsigned n).normal = .unsigned n := by
  rw [normal, if_neg (by simpa [Literal.isRegular] using h)]

/-- The normal form of a regular scalar. -/
def normalScalar : Literal → Normal
  | .null => .null
  | .boolean b => .boolean b
  | .integer n => .integer n
  | .unsigned n => .unsigned n
  | .float x => .float (Layout.expression.text x)
  | .string s => .string s
  | .array _ => .list []

theorem normal_translate {l : Literal} (hl : l.isScalar = true) (hpl : l.isRegular = true) :
    l.translate.normal = normalScalar l := by
  cases l with
  | unsigned n => exact normal_unsigned_of_isRegular hpl
  | array items => cases hl
  | _ => rfl

/-- Different regular scalars have different normal forms. -/
theorem normal_scalar_inj {l m : Literal} (hl : l.isScalar = true) (hm : m.isScalar = true)
    (hpl : l.isRegular = true) (hpm : m.isRegular = true) :
    l.translate.normal = m.translate.normal ↔ l = m := by
  rw [normal_translate hl hpl, normal_translate hm hpm]
  cases l <;> cases m <;>
    simp_all [Literal.isScalar, Literal.isRegular, normalScalar,
      Layout.text_inj Layout.signs_expression]

/-- The normal form tells apart what can stand in one position. -/
theorem separates_normal : Separates (fun s t => s.normal = t.normal) Literal.isRegular where
  list := by
    intro ss ts
    rw [normal, normal, Normal.list.injEq, normals_eq_iff_forall₂]
  isList := by
    intro s t h
    have hatom : s.isAtom = t.isAtom := by rw [← isAtom_normal, h, isAtom_normal]
    simpa [isAtom] using hatom
  symbol := by simp [normal]
  string := by simp [normal]
  kind := by simp [normal, AttributeKind.displayName_inj]
  count := normal_unsigned_inj
  aliases := normal_aliases_inj
  scalar := normal_scalar_inj
  symbol_scalar := fun hl h => normal_ne_symbol hl h.symm
  scalar_symbol := fun hl => normal_ne_symbol hl

/-! ## JSON -/

theorem trees_toDocuments_eq_iff_forall₂ {ss ts : List Sexp} :
    Document.trees (toDocuments ss) = Document.trees (toDocuments ts) ↔
      List.Forall₂ (fun s t => s.toDocument.tree = t.toDocument.tree) ss ts := by
  induction ss generalizing ts with
  | nil => cases ts <;> simp [toDocuments, Document.trees]
  | cons s ss ih => cases ts <;> simp [toDocuments, Document.trees, ih]

/-- Only lists are arrays; a node is an object. -/
theorem tree_ne_array {s : Sexp} (hs : s.isAtom = true) (parts : List Tree) :
    s.toDocument.tree ≠ .group '[' parts := by
  intro h
  cases s with
  | list items => cases hs
  | node n => cases n <;> cases h
  | boolean b => cases b <;> cases h
  | _ => cases h

theorem isList_eq_of_tree_eq {s t : Sexp} (h : s.toDocument.tree = t.toDocument.tree) :
    s.isList = t.isList := by
  cases hs : s.isList <;> cases ht : t.isList
  · rfl
  · cases t with
    | list ts => exact (tree_ne_array (by simp [isAtom, hs]) _ h).elim
    | _ => cases ht
  · cases s with
    | list ss => exact (tree_ne_array (by simp [isAtom, ht]) _ h.symm).elim
    | _ => cases hs
  · rfl

/-! ### Strings -/

/-- A guarded string starts with a backslash, or is not guarded and starts with neither a backslash
nor a colon. -/
theorem guarded_cases (s : String) : guarded s = "\\" ++ s ∨
    guarded s = s ∧ s.toList.head? ≠ some ':' ∧ s.toList.head? ≠ some '\\' := by
  unfold guarded
  split
  · exact Or.inl rfl
  · exact Or.inl rfl
  · rename_i hcolon hslash
    refine Or.inr ⟨rfl, fun h => ?_, fun h => ?_⟩
    · obtain ⟨rest, hrest⟩ := List.head?_eq_some_iff.1 h
      exact hcolon rest hrest
    · obtain ⟨rest, hrest⟩ := List.head?_eq_some_iff.1 h
      exact hslash rest hrest

theorem head_append (c : Char) (s : String) :
    (String.singleton c ++ s).toList.head? = some c := by
  simp

/-- Guarding keeps strings apart. -/
theorem guarded_inj {s t : String} : guarded s = guarded t ↔ s = t := by
  refine ⟨fun h => ?_, fun h => h ▸ rfl⟩
  rcases guarded_cases s with hs | ⟨hs, -, hs'⟩ <;> rcases guarded_cases t with ht | ⟨ht, -, ht'⟩
  · rw [hs, ht] at h
    exact String.toList_inj.1 (by simpa using congrArg String.toList h)
  · rw [hs, ht] at h
    exact (ht' (by rw [← h]; exact head_append '\\' s)).elim
  · rw [hs, ht] at h
    exact (hs' (by rw [h]; exact head_append '\\' t)).elim
  · rw [← hs, h, ht]

/-- A guarded string is no symbol. -/
theorem guarded_ne_colon (s a : String) : guarded s ≠ ":" ++ a := by
  intro h
  have hcolon : (guarded s).toList.head? = some ':' := by rw [h]; exact head_append ':' a
  rcases guarded_cases s with hs | ⟨hs, hs', -⟩
  · rw [hs] at hcolon
    have hslash : ("\\" ++ s).toList.head? = some '\\' := head_append '\\' s
    rw [hslash] at hcolon
    exact absurd hcolon (by decide)
  · exact hs' (hs ▸ hcolon)

/-! ### Scalars -/

/-- The text of a scalar in a document. -/
def scalarText (l : Literal) : List Char := l.translate.toDocument.write none

theorem tree_scalar {l : Literal} (hl : l.isScalar = true) :
    l.translate.toDocument.tree = .word (scalarText l) := by
  cases l with
  | array items => cases hl
  | _ => rfl

/-- What the text of a scalar shows of it. -/
inductive ScalarSort where
  | null
  | boolean
  | string
  | whole
  | decimal
deriving DecidableEq

/-- The sort of a scalar, read off its text: the first character tells it, or a point
or an exponent. -/
def sortOfText : List Char → ScalarSort
  | 'n' :: _ => .null
  | 't' :: _ | 'f' :: _ => .boolean
  | '"' :: _ => .string
  | cs => if '.' ∈ cs ∨ 'e' ∈ cs then .decimal else .whole

theorem sortOfText_number {cs : List Char} (h : ∀ c ∈ cs.head?, c.isDigit = true ∨ c = '-') :
    sortOfText cs = if '.' ∈ cs ∨ 'e' ∈ cs then .decimal else .whole := by
  have hletter : ∀ c ∈ cs.head?, c ∉ ['n', 't', 'f', '"'] := fun c hc =>
    Numeral.notMem_of_digit_or_minus (by decide) (h c hc)
  unfold sortOfText
  split <;> simp_all

/-- The sort of a literal. -/
def sortOfLiteral : Literal → ScalarSort
  | .null => .null
  | .boolean _ => .boolean
  | .integer _ => .whole
  | .unsigned _ => .whole
  | .float _ => .decimal
  | .string _ => .string
  | .array _ => .null

theorem sortOfText_ofInt (n : Int) : sortOfText (Numeral.ofInt n) = .whole := by
  have hmark : ∀ c, c = '.' ∨ c = 'e' → c ∉ Numeral.ofInt n := by
    intro c hc hmem
    rcases Numeral.isDigit_or_eq_minus_of_mem_ofInt hmem with h | h <;> rcases hc with rfl | rfl
    all_goals exact absurd h (by decide)
  rw [sortOfText_number fun c hc =>
      Numeral.isDigit_or_eq_minus_of_mem_ofInt (List.mem_of_mem_head? hc),
    if_neg (not_or.2 ⟨hmark _ (Or.inl rfl), hmark _ (Or.inr rfl)⟩)]

theorem sortOfText_float {x : Binary64} (hx : x.isFinite = true) :
    sortOfText (Layout.document.text x) = .decimal := by
  rw [sortOfText_number (Layout.head_text Layout.signs_document hx),
    if_pos (Layout.mark_mem_text Layout.signs_document hx)]

/-- The text of a regular scalar shows its sort. -/
theorem sortOfText_scalarText {l : Literal} (hl : l.isScalar = true) (hpl : l.isRegular = true) :
    sortOfText (scalarText l) = sortOfLiteral l := by
  cases l with
  | null => rfl
  | boolean b => cases b <;> rfl
  | integer n => exact sortOfText_ofInt n.toInt
  | unsigned n => exact sortOfText_ofInt n.toNat
  | float x => exact sortOfText_float hpl
  | string s => rfl
  | array items => cases hl

/-- Different regular scalars have different texts. -/
theorem scalarText_inj {l m : Literal} (hl : l.isScalar = true) (hm : m.isScalar = true)
    (hpl : l.isRegular = true) (hpm : m.isRegular = true) :
    scalarText l = scalarText m ↔ l = m := by
  refine ⟨fun h => ?_, fun h => h ▸ rfl⟩
  have hsort : sortOfLiteral l = sortOfLiteral m := by
    rw [← sortOfText_scalarText hl hpl, h, sortOfText_scalarText hm hpm]
  have hroom : ∀ (i : Int64) (n : UInt64), (Literal.unsigned n).isRegular = true →
      Numeral.ofInt i.toInt ≠ Numeral.ofInt n.toNat := by
    intro i n hn heq
    have hlt := i.toInt_lt
    have hn' : 0x7FFFFFFFFFFFFFFF < n.toNat := by simpa [Literal.isRegular] using hn
    have := Numeral.ofInt_inj.1 heq
    omega
  cases l <;> cases m <;> first | cases hl; done | cases hm; done | cases hsort; done | skip
  case null.null => rfl
  case boolean.boolean a b => cases a <;> cases b <;> first | rfl | cases h
  case integer.integer i j => exact congrArg _ (Numeral.ofInt_toInt_inj.1 h)
  case integer.unsigned i n => exact (hroom i n hpm h).elim
  case unsigned.integer n i => exact (hroom i n hpl h.symm).elim
  case unsigned.unsigned m n => exact congrArg _ (Numeral.ofInt_toNat_inj.1 h)
  case float.float x y =>
    exact congrArg _ ((Layout.text_inj Layout.signs_document hpl hpm).1 h)
  case string.string s t => exact congrArg _ (guarded_inj.1 (Quoted.text_inj.1 h))

/-- No literal is a symbol. -/
theorem scalarText_ne_symbol {a : String} {l : Literal} (hl : l.isScalar = true) :
    scalarText l ≠ Quoted.text (":" ++ a) := by
  intro h
  have hquote : '"' ∈ scalarText l := by rw [h]; exact List.mem_cons_self
  cases l with
  | null => exact absurd hquote (by decide)
  | boolean b => cases b <;> exact absurd hquote (by decide)
  | integer n => exact Numeral.quote_notMem_ofInt n.toInt hquote
  | unsigned n => exact Numeral.quote_notMem_ofInt n.toNat hquote
  | float x =>
    cases hx : x.isFinite with
    | true =>
      have := Layout.mem_text Layout.signs_document hx hquote
      exact absurd this (by decide)
    | false =>
      rw [show scalarText (.float x) = _ from Document.float_text_of_not_isFinite hx] at hquote
      exact absurd hquote (by decide)
  | string s => exact guarded_ne_colon s a (Quoted.text_inj.1 h)
  | array items => cases hl

/-- The tree of its document tells apart what can stand in one position. -/
theorem separates_tree :
    Separates (fun s t => s.toDocument.tree = t.toDocument.tree) Literal.isRegular where
  list := by
    intro ss ts
    rw [toDocument, toDocument, Document.tree, Document.tree, Tree.group.injEq,
      trees_toDocuments_eq_iff_forall₂]
    simp
  isList := isList_eq_of_tree_eq
  symbol := by
    intro a b
    rw [toDocument, toDocument, Document.tree_string_inj]
    simp
  string := by
    intro s t
    rw [toDocument, toDocument, Document.tree_string_inj, guarded_inj]
  kind := by
    intro j k
    rw [toDocument, toDocument, Document.tree_string_inj, AttributeKind.displayName_inj]
  count := by
    intro m n
    show Tree.word (Numeral.ofInt m.toNat) = .word (Numeral.ofInt n.toNat) ↔ m = n
    rw [Tree.word.injEq, Numeral.ofInt_toNat_inj]
  aliases := AliasSet.tree_inj
  scalar := by
    intro l m hl hm hpl hpm
    rw [tree_scalar hl, tree_scalar hm, Tree.word.injEq, scalarText_inj hl hm hpl hpm]
  symbol_scalar := by
    intro a l hl h
    rw [tree_scalar hl] at h
    exact scalarText_ne_symbol hl (Tree.word.inj h).symm
  scalar_symbol := by
    intro a l hl h
    rw [tree_scalar hl] at h
    exact scalarText_ne_symbol hl (Tree.word.inj h)

/-- Equality is such a comparison too. -/
theorem separates_eq : Separates (fun s t => s = t) fun _ => true where
  list := by
    intro ss ts
    rw [Sexp.list.injEq, List.forall₂_eq_eq_eq]
  isList := fun h => h ▸ rfl
  symbol := by simp
  string := by simp
  kind := by simp
  count := by simp
  aliases := by simp [AliasSet.translate]
  scalar := by
    intro l m hl hm _ _
    cases l <;> cases m <;> simp_all [Literal.translate, Literal.isScalar]
  symbol_scalar := by
    intro a l hl
    cases l <;> simp_all [Literal.translate, Literal.isScalar]
  scalar_symbol := by
    intro a l hl
    cases l <;> simp_all [Literal.translate, Literal.isScalar]

end Sexp

/-! ## The output -/

/-- Outputs are told apart by the same text exactly when the trees are. -/
theorem OutputFormat.render_translate_iff (output : OutputFormat) (isPretty : Bool)
    {a b : Relation} (ha : a.every Literal.isRegular = true)
    (hb : b.every Literal.isRegular = true) :
    output.render isPretty a.translate = output.render isPretty b.translate ↔
      a.erased = b.erased := by
  have hall : ∀ l : Literal, (fun _ => true : Literal → Bool) l = true := fun _ => rfl
  have heq := Sexp.separates_eq.relation (a.every_of_forall hall) (b.every_of_forall hall)
  refine ⟨fun h => ?_, fun h => by rw [heq.2 h]⟩
  cases output with
  | sexp => exact (Sexp.separates_normal.relation ha hb).1 ((Sexp.render_eq_iff isPretty).1 h)
  | json =>
    refine (Sexp.separates_tree.relation ha hb).1 ?_
    have htext := congrArg String.toList h
    simp only [OutputFormat.render, Document.render, String.toList_ofList] at htext
    cases isPretty with
    | false => exact Document.tree_eq_of_write_eq htext
    | true => exact Document.tree_eq_of_write_eq htext

/-- Two relations with regular literals are emitted as one text exactly when they agree
after the kinds of their referenced attributes are erased, in both formats, on one line and
over several lines. -/
theorem emit_eq_iff_erased (output : OutputFormat) (isPretty : Bool) (a b : Relation)
    (ha : a.every Literal.isRegular = true) (hb : b.every Literal.isRegular = true) :
    ∃ s t, emit output isPretty a = .ok s ∧ emit output isPretty b = .ok t ∧
      (s = t ↔ a.erased = b.erased) := by
  have hemit : ∀ r : Relation,
      emit output isPretty r = .ok (output.render isPretty r.translate) := by
    intro r
    rw [emit, Sexp.ofNode_relation]
    rfl
  exact ⟨_, _, hemit a, hemit b, output.render_translate_iff isPretty ha hb⟩

/-- The rows whose `x` is 1.5, where `x` is referred to as an attribute of kind `k`. -/
def comparison (k : AttributeKind) : Relation :=
  .restriction (.base "r" ⟨[⟨"x", .float⟩]⟩)
    (.binary .equality (.attr ⟨"x", k⟩) (.literal (.float ⟨0x3FF8000000000000⟩)))

/-- The kind of a referenced attribute does not show, here in JSON over several lines. -/
theorem emit_eq_iff_erased_comparison :
    (comparison .float).every Literal.isRegular = true ∧
    (comparison .integer).every Literal.isRegular = true ∧
    ∃ s, emit .json true (comparison .float) = .ok s ∧
      emit .json true (comparison .integer) = .ok s := by
  refine ⟨by decide, by decide, ?_⟩
  obtain ⟨s, t, hs, ht, hst⟩ := emit_eq_iff_erased .json true (comparison .float)
    (comparison .integer) (by decide) (by decide)
  obtain rfl : s = t := hst.2 rfl
  exact ⟨s, hs, ht⟩

end RelAlg
