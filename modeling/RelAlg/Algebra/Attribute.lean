import RelAlg.Vocabulary

/-!
# Attributes and headers

The named, typed columns of a relation.

* `AttributeKind`, `Attribute`, `Header`: a header is an ordered list of attributes, whose
  names may repeat;
* `Header.find?`                        : the first attribute of a name;
* `Header.project`                      : the named attributes in the requested order, or the first
  name that the header lacks.
-/

namespace RelAlg

/-! ## Attribute kinds -/

/-- The value domain of an attribute. -/
inductive AttributeKind where
  | boolean
  | date
  | dateTime
  | decimal
  | float
  | integer
  | string
  | time
  | object
deriving DecidableEq, Inhabited

namespace AttributeKind

instance : Vocabulary AttributeKind where
  all := [boolean, date, dateTime, decimal, float, integer, string, time, object]
  word
    | boolean => "boolean"
    | date => "date"
    | dateTime => "date_time"
    | decimal => "decimal"
    | float => "float"
    | integer => "integer"
    | string => "string"
    | time => "time"
    | object => "object"

/-- The kind as it is shown in an s-expression. -/
def displayName : AttributeKind → String
  | boolean => "Boolean"
  | date => "Date"
  | dateTime => "DateTime"
  | decimal => "Decimal"
  | float => "Float"
  | integer => "Integer"
  | string => "String"
  | time => "Time"
  | object => "Object"

/-- The kinds on which numeric functions are defined. -/
def isNumeric : AttributeKind → Bool
  | decimal | float | integer => true
  | _ => false

end AttributeKind

/-! ## Attributes -/

structure Attribute where
  name : String
  kind : AttributeKind
deriving DecidableEq, Inhabited

/-- The attributes that shape a relation, in declaration order. -/
structure Header where
  attributes : List Attribute
deriving DecidableEq, Inhabited

/-- An attribute name that a header was expected to have. -/
structure UnknownAttribute where
  name : String
deriving DecidableEq

namespace UnknownAttribute

def message (e : UnknownAttribute) : String :=
  s!"[RA002] Unknown attribute '{e.name}'"

end UnknownAttribute

/-! ## Looking up and projecting -/

namespace Header

/-- The header with the given names and kinds. -/
def ofPairs (pairs : List (String × AttributeKind)) : Header :=
  ⟨pairs.map fun (name, kind) => ⟨name, kind⟩⟩

def length (h : Header) : Nat := h.attributes.length

def isEmpty (h : Header) : Bool := h.attributes.isEmpty

def names (h : Header) : List String := h.attributes.map (·.name)

/-- The first attribute called `name`. -/
def find? (h : Header) (name : String) : Option Attribute :=
  h.attributes.find? fun a => a.name == name

/-- The first attribute called `name`, which the header is expected to have. -/
def get (h : Header) (name : String) : Except UnknownAttribute Attribute :=
  match h.find? name with
  | some a => .ok a
  | none => .error ⟨name⟩

/-- The named attributes in the order of `names`; the first name that `h` lacks is an error. -/
def project (h : Header) (names : List String) : Except UnknownAttribute Header :=
  Header.mk <$> names.mapM h.get

/-- The header with one more attribute at its end. -/
def push (h : Header) (a : Attribute) : Header := ⟨h.attributes ++ [a]⟩

end Header

end RelAlg
