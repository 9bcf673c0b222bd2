import RelAlg.Binary64.Layout
import RelAlg.Document.Basic
import RelAlg.Text.Shown

/-!
# Why a document is refused

A document is refused because its text is malformed, or because a well-formed value does not fit
where it stands.

* `Expected`         : what was wanted;
* `ReadError`        : the cause;
* `ReadError.message`: its wording, which a malformed text has none of.
-/

namespace RelAlg

/-- What a reader wanted at a place. -/
inductive Expected where
  | string
  | count
  | sequence
  | pair
  | unit
  /-- The word that names a variant. -/
  | tag
  /-- The position of one of so many variants. -/
  | tagIndex (count : Nat)
  /-- A choice, as its name alone or as one member. -/
  | choice
  | singleMember
  /-- A choice with content. -/
  | content
  | record (name : String)
  /-- All the fields of a record, in order. -/
  | fieldsOf (name : String) (count : Nat)
  | tagged (name : String)
  /-- No more than so many items. -/
  | items (count : Nat)
deriving DecidableEq

/-- Why a document is refused. -/
inductive ReadError where
  /-- The text is not a document, or not one that this reader accepts in this place at all. -/
  | malformed
  | invalidType (found : Found) (expected : Expected)
  | invalidValue (found : Found) (expected : Expected)
  | invalidLength (length : Nat) (expected : Expected)
  | unknownWord (word : String) (known : List String)
  | missingField (name : String)
  | duplicateField (name : String)
  /-- A value that is no literal. -/
  | noLiteral
deriving DecidableEq

namespace Found

def describe : Found → String
  | null => "null"
  | boolean b => s!"boolean `{b}`"
  | integer n => s!"integer `{String.ofList (Numeral.ofInt n)}`"
  | float x => s!"floating point `{String.ofList (Layout.document.text x)}`"
  | string s => s!"string {Shown.text s}"
  | sequence => "sequence"
  | map => "map"
  | bareName => "unit variant"

end Found

namespace Expected

/-- A count with its noun. -/
def counted (n : Nat) (noun : String) : String :=
  if n = 1 then s!"1 {noun}" else s!"{n} {noun}s"

def describe : Expected → String
  | string => "a string"
  | count => "u64"
  | sequence => "a sequence"
  | pair => "a tuple of size 2"
  | unit => "unit"
  | tag => "variant identifier"
  | tagIndex n => s!"variant index 0 <= i < {n}"
  | choice => "string or map"
  | singleMember => "map with a single key"
  | content => "newtype variant"
  | record name => s!"struct {name}"
  | fieldsOf name n => name ++ " with " ++ counted n "element"
  | tagged name => s!"internally tagged enum {name}"
  | items n => counted n "element" ++ " in sequence"

end Expected

namespace ReadError

/-- The words of an error: none if the text is malformed. -/
def message? : ReadError → Option String
  | malformed => none
  | invalidType found expected =>
    some s!"invalid type: {found.describe}, expected {expected.describe}"
  | invalidValue found expected =>
    some s!"invalid value: {found.describe}, expected {expected.describe}"
  | invalidLength n expected => some s!"invalid length {n}, expected {expected.describe}"
  | unknownWord word known =>
    let quoted := known.map fun w => s!"`{w}`"
    match quoted with
    | [] => some s!"unknown variant `{word}`, there are no variants"
    | [a] => some s!"unknown variant `{word}`, expected {a}"
    | [a, b] => some s!"unknown variant `{word}`, expected {a} or {b}"
    | _ => some (s!"unknown variant `{word}`, expected one of " ++ ", ".intercalate quoted)
  | missingField name => some s!"missing field `{name}`"
  | duplicateField name => some s!"duplicate field `{name}`"
  | noLiteral => some "data did not match any variant of untagged enum Literal"

end ReadError

namespace Document

/-- The error for a value of the wrong sort; a text that broke off is malformed
before anything else. -/
def mismatch (d : Document) (expected : Expected) : ReadError :=
  match d.found? with
  | some found => .invalidType found expected
  | none => .malformed

end Document

end RelAlg
