import RelAlg.Decode.Leaf

/-!
# Reading trees from a document in memory

Relations, functions, operands and literals are read from a document that has been read as a whole
before.  The member `relation` or `function` names the form, wherever it stands; its other members
are the fields of that form.  An array holds the name and then the fields in order.

* `Form`                          : the forms of relations and functions with their fields;
* `Held.literal`, `Held.function` : reading a literal and a function;
* `Held.relation`                 : reading a relation.
-/

namespace RelAlg

/-! ## Forms and their fields -/

/-- The operations a relation can be. -/
inductive RelationForm where
  | base
  | materialized
  | order
  | limit
  | offset
  | reverse
  | deletion
  | insertion
  | combine
  | projection
  | restriction
  | extension
  | rename
  | summarization
deriving DecidableEq

instance : Vocabulary RelationForm where
  all := [.base, .materialized, .order, .limit, .offset, .reverse, .deletion, .insertion, .combine,
    .projection, .restriction, .extension, .rename, .summarization]
  word
    | .base => "base"
    | .materialized => "materialized"
    | .order => "order"
    | .limit => "limit"
    | .offset => "offset"
    | .reverse => "reverse"
    | .deletion => "deletion"
    | .insertion => "insertion"
    | .combine => "combine"
    | .projection => "projection"
    | .restriction => "restriction"
    | .extension => "extension"
    | .rename => "rename"
    | .summarization => "summarization"

/-- The fields that some relation has. -/
inductive RelationField where
  | name
  | header
  | tuples
  | operand
  | directions
  | limit
  | offset
  | other
  | op
  | left
  | right
  | predicate
  | extensions
  | aliases
  | summarizePer
deriving DecidableEq

instance : Vocabulary RelationField where
  all := [.name, .header, .tuples, .operand, .directions, .limit, .offset, .other, .op,
    .left, .right, .predicate, .extensions, .aliases, .summarizePer]
  word
    | .name => "name"
    | .header => "header"
    | .tuples => "tuples"
    | .operand => "operand"
    | .directions => "directions"
    | .limit => "limit"
    | .offset => "offset"
    | .other => "other"
    | .op => "op"
    | .left => "left"
    | .right => "right"
    | .predicate => "predicate"
    | .extensions => "extensions"
    | .aliases => "aliases"
    | .summarizePer => "summarize_per"

abbrev RelationField.Type : RelationField → Type
  | .name => String
  | .header => Header
  | .tuples => List Tuple
  | .directions => DirectionSet
  | .limit | .offset => UInt64
  | .op => Combinator
  | .predicate => Function
  | .extensions => List (String × Operand)
  | .aliases => AliasSet
  | .operand | .other | .left | .right | .summarizePer => Relation

namespace RelationForm

/-- The fields of a form, in declaration order. -/
def fields : RelationForm → List RelationField
  | base => [.name, .header]
  | materialized => [.header, .tuples]
  | order => [.operand, .directions]
  | limit => [.operand, .limit]
  | offset => [.operand, .offset]
  | reverse => [.operand]
  | deletion | insertion => [.operand, .other]
  | combine => [.op, .left, .right]
  | projection => [.operand, .header]
  | restriction => [.operand, .predicate]
  | extension => [.operand, .extensions]
  | rename => [.operand, .aliases]
  | summarization => [.operand, .summarizePer]

/-- What an error calls the form. -/
def title : RelationForm → String
  | base => "struct variant Relation::Base"
  | materialized => "struct variant Relation::Materialized"
  | order => "struct variant Relation::Order"
  | limit => "struct variant Relation::Limit"
  | offset => "struct variant Relation::Offset"
  | reverse => "struct variant Relation::Reverse"
  | deletion => "struct variant Relation::Deletion"
  | insertion => "struct variant Relation::Insertion"
  | combine => "struct variant Relation::Combine"
  | projection => "struct variant Relation::Projection"
  | restriction => "struct variant Relation::Restriction"
  | extension => "struct variant Relation::Extension"
  | rename => "struct variant Relation::Rename"
  | summarization => "struct variant Relation::Summarization"

/-- The relation of a form with the given parts. -/
def assemble (parts : Parts RelationField.Type) : RelationForm → Except ReadError Relation
  | base => return .base (← parts.need .name) (← parts.need .header)
  | materialized => return .materialized (← parts.need .header) (← parts.need .tuples)
  | order => return .order (← parts.need .operand) (← parts.need .directions)
  | limit => return .limit (← parts.need .operand) (← parts.need .limit)
  | offset => return .offset (← parts.need .operand) (← parts.need .offset)
  | reverse => return .reverse (← parts.need .operand)
  | deletion => return .deletion (← parts.need .operand) (← parts.need .other)
  | insertion => return .insertion (← parts.need .operand) (← parts.need .other)
  | combine => return .combine (← parts.need .op) (← parts.need .left) (← parts.need .right)
  | projection => return .projection (← parts.need .operand) (← parts.need .header)
  | restriction => return .restriction (← parts.need .operand) (← parts.need .predicate)
  | extension => return .extension (← parts.need .operand) (← parts.need .extensions)
  | rename => return .rename (← parts.need .operand) (← parts.need .aliases)
  | summarization => return .summarization (← parts.need .operand) (← parts.need .summarizePer)

end RelationForm

/-- The sorts of function. -/
inductive FunctionForm where
  | binary
  | unary
  | tautology
  | contradiction
deriving DecidableEq

instance : Vocabulary FunctionForm where
  all := [.binary, .unary, .tautology, .contradiction]
  word
    | .binary => "binary"
    | .unary => "unary"
    | .tautology => "tautology"
    | .contradiction => "contradiction"

/-- The fields that some function has; the two operators share a name. -/
inductive FunctionField where
  | binaryOp
  | unaryOp
  | left
  | right
  | operand
deriving DecidableEq

instance : Vocabulary FunctionField where
  all := [.binaryOp, .unaryOp, .left, .right, .operand]
  word
    | .binaryOp => "op"
    | .unaryOp => "op"
    | .left => "left"
    | .right => "right"
    | .operand => "operand"

abbrev FunctionField.Type : FunctionField → Type
  | .binaryOp => BinaryOp
  | .unaryOp => UnaryOp
  | .left | .right | .operand => Operand

namespace FunctionForm

/-- The fields of a form, in declaration order. -/
def fields : FunctionForm → List FunctionField
  | binary => [.binaryOp, .left, .right]
  | unary => [.unaryOp, .operand]
  | tautology | contradiction => []

/-- What an error calls the form. -/
def title : FunctionForm → String
  | binary => "struct variant Function::Binary"
  | unary => "struct variant Function::Unary"
  | tautology => "unit variant Function::Tautology"
  | contradiction => "unit variant Function::Contradiction"

/-- The function of a form with the given parts. -/
def assemble (parts : Parts FunctionField.Type) : FunctionForm → Except ReadError Function
  | binary => return .binary (← parts.need .binaryOp) (← parts.need .left) (← parts.need .right)
  | unary => return .unary (← parts.need .unaryOp) (← parts.need .operand)
  | tautology => return .tautology
  | contradiction => return .contradiction

end FunctionForm

/-- The sorts of operand. -/
inductive OperandSort where
  | attr
  | function
  | literal
deriving DecidableEq

instance : Vocabulary OperandSort where
  all := [.attr, .function, .literal]
  word
    | .attr => "attribute"
    | .function => "function"
    | .literal => "literal"

namespace Held

/-! ## The form of a document -/

/-- The form that a tag stands for: its word or its position. -/
def tag {φ : Type} [Vocabulary φ] : Document → Except ReadError φ
  | .string w => Decode.known w
  | .integer n => if 0 ≤ n then Decode.nth n.toNat else .error (.invalidType (.integer n) .tag)
  | d => .error (d.mismatch .tag)

/-- The form that the member called `name` stands for, where `found` was told by an earlier
member. -/
def formOf {φ : Type} [Vocabulary φ] (name : String) (found : Option φ) :
    List (Key × Document) → Except ReadError φ
  | [] =>
    match found with
    | some form => .ok form
    | none => .error (.missingField name)
  | (key, d) :: rest =>
    if key = .text name then
      match found with
      | some _ => .error (.duplicateField name)
      | none => do
        let form ← tag d
        formOf name (some form) rest
    else formOf name found rest

/-! ## Literals -/

mutual

/-- Any value but an object is a literal, if its numbers are in range and its items are literals. -/
def literal? : Document → Option Literal
  | .null => some .null
  | .boolean b => some (.boolean b)
  | .integer n => Literal.ofInt? n
  | .minusZero => Literal.ofInt? 0
  | .float x => some (.float x)
  | .string s => some (.string s)
  | .array items => (literals? items).map .array
  | _ => none

def literals? : List Document → Option (List Literal)
  | [] => some []
  | d :: rest => do
    let l ← literal? d
    let ls ← literals? rest
    return l :: ls

end

def literal (d : Document) : Except ReadError Literal :=
  match literal? d with
  | some l => .ok l
  | none => .error .noLiteral

/-! ## Functions and operands -/

/-- The value of a field, given how an operand in its place is read. -/
def functionField (operand : Unit → Except ReadError Operand) (d : Document) :
    (s : FunctionField) → Except ReadError s.Type
  | .binaryOp => Decode.word .held d
  | .unaryOp => Decode.word .held d
  | .left | .right | .operand => operand ()

mutual

def operand : Document → Except ReadError Operand
  | .string w => do
    let _ : OperandSort ← Decode.known w
    .error (.invalidType .bareName .content)
  | .object [(key, d)] => do
    match (← Decode.knownKey key : OperandSort) with
    | .attr => Operand.attr <$> Decode.attr .held d
    | .function => Operand.function <$> function d
    | .literal => Operand.literal <$> literal d
  | .object _ => .error (.invalidValue .map .singleMember)
  | d => .error (d.mismatch .choice)

def function : Document → Except ReadError Function
  | .object ms => do
    match (← formOf "function" none ms : FunctionForm) with
    | .tautology => return .tautology
    | .contradiction => return .contradiction
    | form => do
      let parts ← functionMembers form [] ms
      form.assemble parts
  | .array [] => .error (.missingField "function")
  | .array (t :: items) => do
    let form ← tag t
    let width := FunctionForm.fields form |>.length
    let parts ← functionItems
      (Decode.lengthError .held (.fieldsOf form.title width) width items.length) form.fields items
    form.assemble parts
  | d => .error (d.mismatch (.tagged "Function"))

/-- The fields of a function that is written as an object. -/
def functionMembers (form : FunctionForm) (done : Parts FunctionField.Type) :
    List (Key × Document) → Except ReadError (Parts FunctionField.Type)
  | [] => .ok done
  | (key, d) :: rest =>
    if key = .text "function" then functionMembers form done rest
    else do
      match ← nextField form.fields done key with
      | none => functionMembers form done rest
      | some s => do
        let v ← functionField (fun _ => operand d) d s
        functionMembers form (⟨s, v⟩ :: done) rest

/-- The fields of a function that is written as an array. -/
def functionItems (wrongLength : ReadError) :
    List FunctionField → List Document → Except ReadError (Parts FunctionField.Type)
  | [], [] => .ok []
  | s :: fields, d :: rest => do
    let v ← functionField (fun _ => operand d) d s
    let parts ← functionItems wrongLength fields rest
    return ⟨s, v⟩ :: parts
  | _, _ => .error wrongLength

end

/-! ## Relations -/

/-- The value of a field, given how a relation in its place is read. -/
def relationField (relation : Unit → Except ReadError Relation) (d : Document) :
    (s : RelationField) → Except ReadError s.Type
  | .name => Decode.string d
  | .header => Decode.header .held d
  | .tuples => Decode.sequence (Decode.sequence literal) d
  | .directions => Decode.directionSet .held d
  | .limit | .offset => Decode.count d
  | .op => Decode.word .held d
  | .predicate => function d
  | .extensions => Decode.sequence (Decode.pair .held Decode.string operand) d
  | .aliases => Decode.aliasSet .held d
  | .operand | .other | .left | .right | .summarizePer => relation ()

mutual

def relation : Document → Except ReadError Relation
  | .object ms => do
    let form ← formOf "relation" none ms
    let parts ← relationMembers form [] ms
    RelationForm.assemble parts form
  | .array [] => .error (.missingField "relation")
  | .array (t :: items) => do
    let form ← tag t
    let width := RelationForm.fields form |>.length
    let parts ← relationItems
      (Decode.lengthError .held (.fieldsOf form.title width) width items.length) form.fields items
    form.assemble parts
  | d => .error (d.mismatch (.tagged "Relation"))

/-- The fields of a relation that is written as an object. -/
def relationMembers (form : RelationForm) (done : Parts RelationField.Type) :
    List (Key × Document) → Except ReadError (Parts RelationField.Type)
  | [] => .ok done
  | (key, d) :: rest =>
    if key = .text "relation" then relationMembers form done rest
    else do
      match ← nextField form.fields done key with
      | none => relationMembers form done rest
      | some s => do
        let v ← relationField (fun _ => relation d) d s
        relationMembers form (⟨s, v⟩ :: done) rest

/-- The fields of a relation that is written as an array. -/
def relationItems (wrongLength : ReadError) :
    List RelationField → List Document → Except ReadError (Parts RelationField.Type)
  | [], [] => .ok []
  | s :: fields, d :: rest => do
    let v ← relationField (fun _ => relation d) d s
    let parts ← relationItems wrongLength fields rest
    return ⟨s, v⟩ :: parts
  | _, _ => .error wrongLength

end

end Held

end RelAlg
