import RelAlg.Emit
import RelAlg.Proofs.Sexp.Reader

/-!
# What the JSON of an s-expression shows

As JSON an s-expression loses less than one might fear.  A kind becomes a string, a small unsigned
number looks like a signed one, a float that is not finite is null, a finite one is its digits, a
node is its own document.  Nothing else is lost: a colon in front marks symbols, and a backslash in
front keeps strings from looking like one, at every position of a nested list.

* `Sexp.jsonNormal`         : the normal form that forgets exactly this;
* `Sexp.readString`         : the symbol or string that a JSON string stands for;
* `Sexp.ofJsonTree_tree`    : the words of the JSON text are read as the normal form;
* `Sexp.jsonTree_jsonNormal`: the normal form determines these words;
* `Sexp.outerStrings_toDocument`: the strings outside nodes stand for the symbols,
  strings and kinds;
* `Sexp.json_kernel`        : two s-expressions have one JSON text exactly when they have
  one normal form.
-/

namespace RelAlg

namespace Sexp

/-! ## Normal forms -/

mutual

/-- The normal form under JSON: kinds become strings, unsigned numbers become signed ones if there
is room, floats that are not finite become null. -/
def jsonNormal : Sexp → Normal
  | list items => .list (jsonNormals items)
  | symbol name => .symbol name
  | string s => .string s
  | integer n => .integer n
  | unsigned n =>
    if n.toNat ≤ 0x7FFFFFFFFFFFFFFF then .integer (Int64.ofNat n.toNat) else .unsigned n
  | float x => if x.isFinite then .float (Layout.document.text x) else .null
  | boolean b => .boolean b
  | null => .null
  | kind k => .string k.displayName
  | node n => .node n.toDocument.compact

def jsonNormals : List Sexp → List Normal
  | [] => []
  | s :: rest => jsonNormal s :: jsonNormals rest

end

/-! ## Strings -/

/-- What a JSON string stands for: a symbol if it starts with a colon, else a string, without the
backslash in front if there is one. -/
def readString (w : String) : Normal :=
  match w.toList with
  | ':' :: name => .symbol (String.ofList name)
  | '\\' :: rest => .string (String.ofList rest)
  | _ => .string w

theorem readString_symbol (name : String) : readString (":" ++ name) = .symbol name := by
  have h : (":" ++ name).toList = ':' :: name.toList := by simp
  simp only [readString, h, String.ofList_toList]

theorem readString_backslash (s : String) : readString ("\\" ++ s) = .string s := by
  have h : ("\\" ++ s).toList = '\\' :: s.toList := by simp
  simp only [readString, h, String.ofList_toList]

/-- A string is read back, whatever it starts with. -/
theorem readString_guarded (s : String) : readString (guarded s) = .string s := by
  unfold guarded
  split
  · exact readString_backslash s
  · exact readString_backslash s
  · rename_i hcolon hslash
    unfold readString
    split
    · rename_i name h
      exact (hcolon name h).elim
    · rename_i rest h
      exact (hslash rest h).elim
    · rfl

/-- The name of a kind is written as it is. -/
theorem guarded_displayName (k : AttributeKind) : guarded k.displayName = k.displayName := by
  cases k <;> rfl

mutual

/-- The symbols, strings and kinds of an s-expression, those inside nodes left out, in order. -/
def outerAtoms : Sexp → List Normal
  | list items => outerAtomsAll items
  | symbol name => [.symbol name]
  | string s => [.string s]
  | kind k => [.string k.displayName]
  | _ => []

def outerAtomsAll : List Sexp → List Normal
  | [] => []
  | s :: rest => outerAtoms s ++ outerAtomsAll rest

end

end Sexp

namespace Document

mutual

/-- The strings of a document, those inside objects left out, in order. -/
def outerStrings : Document → List String
  | array items => outerStringsAll items
  | string s => [s]
  | _ => []

def outerStringsAll : List Document → List String
  | [] => []
  | d :: rest => outerStrings d ++ outerStringsAll rest

end

end Document

/-- The document of a node is an object. -/
theorem Node.exists_toDocument_eq (n : Node) : ∃ members, n.toDocument = .object members := by
  cases n <;> exact ⟨_, rfl⟩

namespace Sexp

mutual

/-- The strings of the JSON stand, in order, for the symbols, strings and kinds. -/
theorem outerStrings_toDocument : ∀ s : Sexp,
    s.toDocument.outerStrings.map readString = s.outerAtoms
  | list items => outerStringsAll_toDocuments items
  | symbol name => congrArg (· :: []) (readString_symbol name)
  | string s => congrArg (· :: []) (readString_guarded s)
  | kind k => by
    have h := readString_guarded k.displayName
    rw [guarded_displayName] at h
    exact congrArg (· :: []) h
  | node n => by
    obtain ⟨members, hmembers⟩ := n.exists_toDocument_eq
    rw [toDocument, hmembers]
    rfl
  | integer _ | unsigned _ | float _ | boolean _ | null => rfl

theorem outerStringsAll_toDocuments : ∀ ss : List Sexp,
    (Document.outerStringsAll (toDocuments ss)).map readString = outerAtomsAll ss
  | [] => rfl
  | s :: rest => by
    rw [toDocuments, Document.outerStringsAll, List.map_append, outerStrings_toDocument s,
      outerStringsAll_toDocuments rest, outerAtomsAll]

end

/-! ## From words to the normal form -/

/-- A number: a whole one if there are digits only. -/
def readNumber (w : List Char) : Option Normal :=
  if Symbol.isDigits (Symbol.dropSign w) then readWhole (Spelling.exponentValue w)
  else some (.float w)

/-- The atom in a word of a JSON text. -/
def readJsonWord : List Char → Option Normal
  | '"' :: rest =>
    match Scan.string rest with
    | some (some s, []) => some (readString s)
    | _ => none
  | ['n', 'u', 'l', 'l'] => some .null
  | ['t', 'r', 'u', 'e'] => some (.boolean true)
  | ['f', 'a', 'l', 's', 'e'] => some (.boolean false)
  | w => readNumber w

theorem readJsonWord_quoted (w : String) : readJsonWord (Quoted.text w) = some (readString w) := by
  show readJsonWord ('"' :: (Quoted.body w.toList ++ ['"'])) = _
  rw [readJsonWord, Scan.string_body]

/-- A word that starts with a digit or a minus sign is a number. -/
theorem readJsonWord_of_digit_or_minus {w : List Char}
    (h : ∀ c ∈ w.head?, c.isDigit = true ∨ c = '-') : readJsonWord w = readNumber w := by
  have hletter : ∀ c ∈ w.head?, c ∉ ['"', 'n', 't', 'f'] := fun c hc =>
    Numeral.notMem_of_digit_or_minus (by decide) (h c hc)
  unfold readJsonWord
  split <;> simp_all

theorem readJsonWord_ofInt (n : Int) : readJsonWord (Numeral.ofInt n) = readWhole n := by
  rw [readJsonWord_of_digit_or_minus fun c hc =>
      Numeral.isDigit_or_eq_minus_of_mem_ofInt (List.mem_of_mem_head? hc),
    readNumber, if_pos (ofInt_spelled n).1, (ofInt_spelled n).2]

theorem readJsonWord_float (x : Binary64) :
    readJsonWord (Layout.document.text x) = some (float x).jsonNormal := by
  rw [jsonNormal]
  cases hx : x.isFinite with
  | true =>
    rw [readJsonWord_of_digit_or_minus (Layout.head_text Layout.signs_document hx), readNumber,
      if_neg (not_isDigits_text Layout.signs_document hx)]
    rfl
  | false =>
    rw [Document.float_text_of_not_isFinite hx]
    rfl

mutual

/-- The normal form in the words of a JSON text.  An object is a node, and kept as its text. -/
def ofJsonTree : Tree → Option Normal
  | .word w => readJsonWord w
  | .group c parts =>
    if c = '{' then some (.node (Document.writeTree none (.group c parts)))
    else (ofJsonTrees parts).map .list

def ofJsonTrees : List Tree → Option (List Normal)
  | [] => some []
  | t :: rest => do
    let n ← ofJsonTree t
    let ns ← ofJsonTrees rest
    return n :: ns

end

theorem ofJsonTree_node (n : Node) :
    ofJsonTree n.toDocument.tree = some (.node n.toDocument.compact) := by
  obtain ⟨members, hmembers⟩ := n.exists_toDocument_eq
  have htext := Document.write_tree none n.toDocument
  rw [hmembers] at htext ⊢
  rw [Document.tree, ofJsonTree, if_pos rfl, ← Document.tree, htext]
  rfl

mutual

/-- The words of the JSON text are read as the normal form. -/
theorem ofJsonTree_tree : ∀ s : Sexp, ofJsonTree s.toDocument.tree = some s.jsonNormal
  | list ss => by
    rw [toDocument, Document.tree, ofJsonTree, if_neg (by decide), ofJsonTrees_trees ss]
    rfl
  | symbol name => (readJsonWord_quoted _).trans (congrArg some (readString_symbol name))
  | string s => (readJsonWord_quoted _).trans (congrArg some (readString_guarded s))
  | integer n => (readJsonWord_ofInt _).trans (readWhole_toInt n)
  | unsigned n => (readJsonWord_ofInt _).trans (readWhole_toNat n)
  | float x => readJsonWord_float x
  | boolean true => rfl
  | boolean false => rfl
  | null => rfl
  | kind k => by
    have h := readJsonWord_quoted k.displayName
    rwa [← guarded_displayName, readString_guarded, guarded_displayName] at h
  | node n => ofJsonTree_node n

theorem ofJsonTrees_trees : ∀ ss : List Sexp,
    ofJsonTrees (Document.trees (toDocuments ss)) = some (jsonNormals ss)
  | [] => rfl
  | s :: rest => by
    rw [toDocuments, Document.trees, ofJsonTrees, ofJsonTree_tree s, ofJsonTrees_trees rest]
    rfl

end

/-! ## From the normal form to words -/

mutual

/-- The words that a normal form stands for in JSON. -/
def jsonTree : Normal → Tree
  | .list items => .group '[' (jsonTrees items)
  | .symbol name => .word (Quoted.text (":" ++ name))
  | .string s => .word (Quoted.text (guarded s))
  | .integer n => .word (Numeral.ofInt n.toInt)
  | .unsigned n => .word (Numeral.ofInt n.toNat)
  | .float text => .word text
  | .boolean true => .word ['t', 'r', 'u', 'e']
  | .boolean false => .word ['f', 'a', 'l', 's', 'e']
  | .null => .word ['n', 'u', 'l', 'l']
  | .node text => (Document.lexicon.read text).getD (.word text)

def jsonTrees : List Normal → List Tree
  | [] => []
  | n :: rest => jsonTree n :: jsonTrees rest

end

theorem jsonTree_unsigned (n : UInt64) :
    jsonTree (unsigned n).jsonNormal = .word (Numeral.ofInt n.toNat) := by
  rw [jsonNormal]
  split
  · rename_i h
    rw [jsonTree, toInt_ofNat h]
  · rfl

theorem jsonTree_float (x : Binary64) :
    jsonTree (float x).jsonNormal = .word (Layout.document.text x) := by
  rw [jsonNormal]
  cases hx : x.isFinite with
  | true => rfl
  | false =>
    rw [Document.float_text_of_not_isFinite hx]
    rfl

mutual

/-- The normal form determines the words of the JSON text. -/
theorem jsonTree_jsonNormal : ∀ s : Sexp, jsonTree s.jsonNormal = s.toDocument.tree
  | list ss => by rw [jsonNormal, jsonTree, jsonTrees_jsonNormals ss, toDocument, Document.tree]
  | symbol _ | string _ | integer _ | boolean true | boolean false | null => rfl
  | unsigned n => jsonTree_unsigned n
  | float x => jsonTree_float x
  | kind k => by
    rw [jsonNormal, jsonTree, guarded_displayName]
    rfl
  | node n => by
    rw [jsonNormal, jsonTree, Document.compact,
      Lexicon.read_of_spells (Document.spells_write none n.toDocument)]
    rfl

theorem jsonTrees_jsonNormals : ∀ ss : List Sexp,
    jsonTrees (jsonNormals ss) = Document.trees (toDocuments ss)
  | [] => rfl
  | s :: rest => by
    rw [jsonNormals, jsonTrees, jsonTree_jsonNormal s, jsonTrees_jsonNormals rest, toDocuments,
      Document.trees]

end

/-! ## The kernel -/

theorem tree_eq_iff_jsonNormal {s t : Sexp} :
    s.toDocument.tree = t.toDocument.tree ↔ s.jsonNormal = t.jsonNormal := by
  constructor
  · intro h
    have hs := ofJsonTree_tree s
    rw [h, ofJsonTree_tree t] at hs
    exact (Option.some.inj hs).symm
  · intro h
    rw [← jsonTree_jsonNormal, h, jsonTree_jsonNormal]

/-- Two s-expressions have one JSON text, on one line or over several lines, exactly when they have
one normal form.  Outside nodes a JSON string with a colon in front is the symbol named by the rest,
and every other one is a string or the name of a kind, behind a backslash if it has one in front. -/
theorem json_kernel :
    (∀ (isPretty : Bool) (s t : Sexp), OutputFormat.json.render isPretty s
      = OutputFormat.json.render isPretty t ↔ s.jsonNormal = t.jsonNormal) ∧
    ∀ s : Sexp, s.toDocument.outerStrings.map readString = s.outerAtoms := by
  refine ⟨fun isPretty s t => ?_, outerStrings_toDocument⟩
  rw [← tree_eq_iff_jsonNormal, OutputFormat.render, OutputFormat.render, Document.render,
    Document.render, String.ofList_inj]
  cases isPretty with
  | false => exact Document.write_eq_iff
  | true => exact Document.write_eq_iff

end Sexp

end RelAlg
