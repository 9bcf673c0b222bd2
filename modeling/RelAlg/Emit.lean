import RelAlg.Decode.Streamed
import RelAlg.Sexp.OfNode
import RelAlg.Sexp.Text
import RelAlg.Yaml.Decode

/-!
# From a serialized tree to its rendering

* `parseRelation`: reads a relation from a JSON or YAML text and checks its materialized relations;
* `emit`         : the canonical s-expression of a relation, as text or as nested JSON arrays.
-/

namespace RelAlg

/-- The format of a serialized tree; `auto` leaves the choice to the name of the file. -/
inductive InputFormat where
  | auto
  | json
  | yaml
deriving DecidableEq

/-- The two renderings of an s-expression. -/
inductive OutputFormat where
  | sexp
  | json
deriving DecidableEq

/-- Why a text gives no relation. -/
inductive ParseError where
  | json (cause : ReadError)
  | yaml
  | arity (cause : TupleArity)
deriving DecidableEq

/-- The relation in a text, before its materialized relations are checked. -/
def decodeRelation (format : InputFormat) (text : String) : Except ParseError Relation :=
  match format with
  | .yaml =>
    match Yaml.decodeText Yaml.relation text with
    | some r => .ok r
    | none => .error .yaml
  | .json | .auto =>
    match (Source.ofText text).decode (Decode.relation Document.maxDepth) with
    | .ok r => .ok r
    | .error e => .error (.json e)

/-- The relation in a text, provided that its tuples match their headers. -/
def parseRelation (format : InputFormat) (text : String) : Except ParseError Relation := do
  let r ← decodeRelation format text
  match r.validate with
  | .ok () => return r
  | .error e => .error (.arity e)

/-- The rendering of an s-expression. -/
def OutputFormat.render (output : OutputFormat) (isPretty : Bool) (s : Sexp) : String :=
  match output with
  | .sexp => s.render isPretty
  | .json => s.toDocument.render isPretty

/-- The rendering of a relation under the canonical rules. -/
def emit (output : OutputFormat) (isPretty : Bool) (r : Relation) : Except MissingField String :=
  output.render isPretty <$> Sexp.ofNode .canonical (.relation r)

end RelAlg
