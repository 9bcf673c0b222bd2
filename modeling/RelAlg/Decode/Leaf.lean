import RelAlg.Algebra.Relation
import RelAlg.Decode.Field

/-!
# Reading attributes, headers and other flat parts

The parts of a tree that do not nest.  They are read in one of two ways.  `Access.streamed` reads
straight from the text: the first fault in the text is the one reported, a member nobody reads only
has to be grammatical, and a token that cannot start the wanted value makes the text malformed.
`Access.held` reads a document that has been checked as a whole before.

* `Decode.string`, `Decode.count`, `Decode.word`: scalars;
* `Decode.attr`, `Decode.direction`            : records, as objects or as arrays of their fields;
* `Decode.header`, `Decode.directionSet`, `Decode.aliasSet`: lists.
-/

namespace RelAlg

/-- Whether a value is read straight from the text or from a document read before. -/
inductive Access where
  | streamed
  | held
deriving DecidableEq

namespace Decode

/-! ## Scalars -/

def string : Document → Except ReadError String
  | .string s => .ok s
  | d => .error (d.mismatch .string)

/-- A whole number from 0 to 2 ^ 64 - 1. -/
def count : Document → Except ReadError UInt64
  | .integer n =>
    if 0 ≤ n ∧ n < 0x10000000000000000 then .ok (UInt64.ofNat n.toNat)
    else .error (.invalidValue (.integer n) .count)
  | .minusZero => .ok 0
  | d => .error (d.mismatch .count)

/-- The element of a vocabulary that a word stands for. -/
def known {α : Type} [Vocabulary α] (w : String) : Except ReadError α :=
  match Vocabulary.find? w with
  | some a => .ok a
  | none => .error (.unknownWord w (Vocabulary.words α))

/-- The element of a vocabulary at a position. -/
def nth {α : Type} [Vocabulary α] (n : Nat) : Except ReadError α :=
  match (Vocabulary.all : List α)[n]? with
  | some a => .ok a
  | none => .error (.invalidValue (.integer n) (.tagIndex (Vocabulary.all : List α).length))

/-- The element of a vocabulary that the name of a member stands for. -/
def knownKey {α : Type} [Vocabulary α] : Key → Except ReadError α
  | .text w => known w
  | .index n => nth n
  | .foreign found => .error (.invalidType found .tag)
  | .unreadable => .error .malformed

/-- The content of an element without content. -/
def unit : Access → Document → Except ReadError Unit
  | _, .null => .ok ()
  | .held, .object [] => .ok ()
  | _, d => .error (d.mismatch .unit)

/-- An element of a vocabulary: its word, or an object with that one member and no content. -/
def word {α : Type} [Vocabulary α] : Access → Document → Except ReadError α
  | _, .string w => known w
  | .held, .object [(key, d)] => do
    let a ← knownKey key
    unit .held d
    return a
  | .held, .object _ => .error (.invalidValue .map .singleMember)
  | .held, d => .error (d.mismatch .choice)
  | .streamed, .object ((key, d) :: rest) => do
    let a ← knownKey key
    unit .streamed d
    if rest.isEmpty then return a else .error .malformed
  | .streamed, _ => .error .malformed

/-! ## Records -/

/-- The error for an array that has too few or too many items for a record. -/
def lengthError (access : Access) (short : Expected) (width total : Nat) : ReadError :=
  if total < width then .invalidLength total short
  else match access with
    | .held => .invalidLength total (.items width)
    | .streamed => .malformed

section Record

variable {σ : Type} {type : σ → Type} [DecidableEq σ] [Vocabulary σ]

/-- The fields of a record that is written as an object. -/
def members (access : Access) (read : (s : σ) → Document → Except ReadError (type s))
    (done : Parts type) : List (Key × Document) → Except ReadError (Parts type)
  | [] => .ok done
  | (key, d) :: rest => do
    match ← nextField Vocabulary.all done key with
    | none =>
      if access = .held ∨ d.grammatical then members access read done rest else .error .malformed
    | some s => do
      let v ← read s d
      members access read (⟨s, v⟩ :: done) rest

/-- The fields of a record that is written as an array; `wrongLength` is the error if it
does not fit. -/
def positional (wrongLength : ReadError) (read : (s : σ) → Document → Except ReadError (type s)) :
    List σ → List Document → Except ReadError (Parts type)
  | [], [] => .ok []
  | s :: fields, d :: rest => do
    let v ← read s d
    let parts ← positional wrongLength read fields rest
    return ⟨s, v⟩ :: parts
  | _, _ => .error wrongLength

/-- The fields of the record called `name`. -/
def record (access : Access) (name : String)
    (read : (s : σ) → Document → Except ReadError (type s)) :
    Document → Except ReadError (Parts type)
  | .object ms => members access read [] ms
  | .array items =>
    let fields : List σ := Vocabulary.all
    let short := Expected.fieldsOf (Expected.record name).describe fields.length
    positional (lengthError access short fields.length items.length) read fields items
  | d => .error (d.mismatch (.record name))

end Record

/-- The fields of an attribute. -/
inductive AttributeField where
  | name
  | kind
deriving DecidableEq

instance : Vocabulary AttributeField where
  all := [.name, .kind]
  word
    | .name => "name"
    | .kind => "kind"

abbrev AttributeField.Type : AttributeField → Type
  | .name => String
  | .kind => AttributeKind

def AttributeField.read (access : Access) :
    (s : AttributeField) → Document → Except ReadError s.Type
  | .name, d => string d
  | .kind, d => word access d

def attr (access : Access) (d : Document) : Except ReadError Attribute := do
  let parts ← record access "Attribute" (AttributeField.read access) d
  return ⟨← parts.need .name, ← parts.need .kind⟩

/-- The fields of a direction. -/
inductive DirectionField where
  | order
  | attr
deriving DecidableEq

instance : Vocabulary DirectionField where
  all := [.order, .attr]
  word
    | .order => "order"
    | .attr => "attribute"

abbrev DirectionField.Type : DirectionField → Type
  | .order => SortOrder
  | .attr => Attribute

def DirectionField.read (access : Access) :
    (s : DirectionField) → Document → Except ReadError s.Type
  | .order, d => word access d
  | .attr, d => Decode.attr access d

def direction (access : Access) (d : Document) : Except ReadError Direction := do
  let parts ← record access "Direction" (DirectionField.read access) d
  return ⟨← parts.need .order, ← parts.need .attr⟩

/-! ## Lists -/

/-- The items of a list. -/
def sequence {α : Type} (read : Document → Except ReadError α) :
    Document → Except ReadError (List α)
  | .array items => items.mapM read
  | d => .error (d.mismatch .sequence)

/-- Two values in an array. -/
def pair {α β : Type} (access : Access) (first : Document → Except ReadError α)
    (second : Document → Except ReadError β) : Document → Except ReadError (α × β)
  | .array [] => .error (.invalidLength 0 .pair)
  | .array [d] => do
    let _ ← first d
    .error (.invalidLength 1 .pair)
  | .array (d :: e :: rest) => do
    let a ← first d
    let b ← second e
    if rest.isEmpty then return (a, b)
    else .error (lengthError access .pair 2 (2 + rest.length))
  | d => .error (d.mismatch .pair)

def header (access : Access) (d : Document) : Except ReadError Header :=
  Header.mk <$> sequence (attr access) d

def directionSet (access : Access) (d : Document) : Except ReadError DirectionSet :=
  DirectionSet.mk <$> sequence (direction access) d

def aliasSet (access : Access) (d : Document) : Except ReadError AliasSet :=
  AliasSet.mk <$> sequence (pair access string string) d

end Decode

end RelAlg
