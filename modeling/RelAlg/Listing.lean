import RelAlg.Document.Writer
import RelAlg.Registry

/-!
# Listing the node kinds

Every node kind with the rule that a registry gives to it, as rows of a table or as a document.

* `Listing.entries`: one entry a kind, in kind order, with or without a rule;
* `Listing.table`  : columns of fixed width and a line of totals;
* `Listing.toDocument`.
-/

namespace RelAlg

namespace Listing

/-- One row of the listing. -/
structure Entry where
  kind : NodeKind
  rule : Option Rule

/-- Every kind, registered or not. -/
def entries (r : Registry) : List Entry :=
  (Vocabulary.all : List NodeKind).map fun k => ⟨k, r.rule? k⟩

namespace Entry

/-- The name of the rule. -/
def ruleName (e : Entry) : Option String := e.rule.map (·.name)

/-- The tag that heads the output of the rule. -/
def tag (e : Entry) : Option String := e.rule >>= Rule.tag?

/-- The fields that the rule reads. -/
def fields (e : Entry) : List String :=
  match e.rule with
  | some rule => rule.fields.map Vocabulary.word
  | none => []

end Entry

/-- The text with blanks after it up to a width. -/
def padded (width : Nat) (s : String) : String :=
  s ++ String.ofList (List.replicate (width - s.length) ' ')

/-- The line with the given columns. -/
def row (kind rule tag fields : String) : String :=
  padded 28 kind ++ " " ++ padded 14 rule ++ " " ++ padded 18 tag ++ " " ++ fields

namespace Entry

def row (e : Entry) : String :=
  Listing.row (Vocabulary.word e.kind) (e.ruleName.getD "(identity)") (e.tag.getD "-")
    (if e.fields.isEmpty then "-" else ", ".intercalate e.fields)

/-- A text, or null where there is none. -/
def optional (s : Option String) : Document :=
  match s with
  | some s => .string s
  | none => .null

def toDocument (e : Entry) : Document :=
  .ofFields [("kind", .string (Vocabulary.word e.kind)), ("rule", optional e.ruleName),
    ("tag", optional e.tag), ("fields", .array (e.fields.map .string))]

end Entry

/-- How many kinds pass through. -/
def unregistered (es : List Entry) : Nat := (es.filter fun e => e.rule.isNone).length

/-- The listing as lines. -/
def table (es : List Entry) : String :=
  let head := [row "KIND" "RULE" "TAG" "FIELDS", String.ofList (List.replicate 80 '-')]
  let foot := ["", s!"{es.length} kind(s), {unregistered es} passed through unchanged."]
  "\n".intercalate (head ++ es.map Entry.row ++ foot)

def toDocument (es : List Entry) : Document := .array (es.map Entry.toDocument)

end Listing

end RelAlg
