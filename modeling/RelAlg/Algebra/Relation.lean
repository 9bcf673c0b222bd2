import RelAlg.Algebra.Function

/-!
# Relations

A tree is rooted at a relation.  Its leaves are base relations, which name stored data,
and materialized relations, which hold their tuples; every other node is an operation on
one or two relations.

* `Relation`              : the tree;
* `Relation.materialized?`: the only checked way to build a materialized relation;
* `Relation.validate`     : the same check for every materialized relation of a finished tree.
-/

namespace RelAlg

/-! ## Sort directions, aliases, combinators -/

inductive SortOrder where
  | ascending
  | descending
deriving DecidableEq, Inhabited

instance : Vocabulary SortOrder where
  all := [.ascending, .descending]
  word
    | .ascending => "ascending"
    | .descending => "descending"

/-- A sort direction on one attribute. -/
structure Direction where
  order : SortOrder
  attr : Attribute
deriving DecidableEq, Inhabited

/-- Sort directions, most significant first. -/
structure DirectionSet where
  directions : List Direction
deriving DecidableEq, Inhabited

/-- Pairs of an old and a new attribute name, in declaration order. -/
structure AliasSet where
  aliases : List (String × String)
deriving DecidableEq, Inhabited

/-- An operation that combines two relations on equal terms. -/
inductive Combinator where
  | join
  | product
  | union
  | intersection
  | difference
deriving DecidableEq, Inhabited

instance : Vocabulary Combinator where
  all := [.join, .product, .union, .intersection, .difference]
  word
    | .join => "join"
    | .product => "product"
    | .union => "union"
    | .intersection => "intersection"
    | .difference => "difference"

namespace Attribute

def ascending (a : Attribute) : Direction := ⟨.ascending, a⟩

def descending (a : Attribute) : Direction := ⟨.descending, a⟩

end Attribute

/-! ## Relations -/

inductive Relation where
  | base (name : String) (header : Header)
  | materialized (header : Header) (tuples : List Tuple)
  | order (operand : Relation) (directions : DirectionSet)
  | limit (operand : Relation) (limit : UInt64)
  | offset (operand : Relation) (offset : UInt64)
  | reverse (operand : Relation)
  | deletion (operand other : Relation)
  | insertion (operand other : Relation)
  | combine (op : Combinator) (left right : Relation)
  | projection (operand : Relation) (header : Header)
  | restriction (operand : Relation) (predicate : Function)
  | extension (operand : Relation) (extensions : List (String × Operand))
  | rename (operand : Relation) (aliases : AliasSet)
  | summarization (operand summarizePer : Relation)

instance : Inhabited Relation := ⟨.base "" ⟨[]⟩⟩

/-- A tuple whose length differs from that of its header. -/
structure TupleArity where
  /-- Position of the tuple in its relation, from 0. -/
  index : Nat
  /-- Number of attributes of the header. -/
  expected : Nat
  /-- Number of values of the tuple. -/
  actual : Nat
deriving DecidableEq

namespace TupleArity

def message (e : TupleArity) : String :=
  s!"[RA001] Tuple {e.index} has {e.actual} values but the header has {e.expected} attributes"

/-- The first tuple whose length is not `width`, where `index` is the position of the first
tuple. -/
def firstFrom (width : Nat) (index : Nat) : List Tuple → Option TupleArity
  | [] => none
  | t :: ts =>
    if t.length = width then firstFrom width (index + 1) ts else some ⟨index, width, t.length⟩

end TupleArity

namespace Relation

/-- Succeeds iff every tuple has one value for each attribute. -/
def checkArity (header : Header) (tuples : List Tuple) : Except TupleArity Unit :=
  match TupleArity.firstFrom header.length 0 tuples with
  | some e => .error e
  | none => .ok ()

/-- A materialized relation, provided that its tuples match its header. -/
def materialized? (header : Header) (tuples : List Tuple) : Except TupleArity Relation := do
  checkArity header tuples
  return .materialized header tuples

/-- Checks every materialized relation of the tree, left to right. -/
def validate : Relation → Except TupleArity Unit
  | .base _ _ => .ok ()
  | .materialized header tuples => checkArity header tuples
  | .order operand _ | .limit operand _ | .offset operand _ | .reverse operand
  | .projection operand _ | .restriction operand _ | .extension operand _
  | .rename operand _ => operand.validate
  | .deletion operand other | .insertion operand other => do
    operand.validate
    other.validate
  | .combine _ left right => do
    left.validate
    right.validate
  | .summarization operand per => do
    operand.validate
    per.validate

/-! ## Builders -/

def sortBy (r : Relation) (directions : DirectionSet) : Relation := .order r directions

/-- The first `n` tuples. -/
def take (r : Relation) (n : UInt64) : Relation := .limit r n

/-- All but the first `n` tuples. -/
def skip (r : Relation) (n : UInt64) : Relation := .offset r n

def delete (r other : Relation) : Relation := .deletion r other

def insert (r other : Relation) : Relation := .insertion r other

def join (r other : Relation) : Relation := .combine .join r other

def product (r other : Relation) : Relation := .combine .product r other

def union (r other : Relation) : Relation := .combine .union r other

def intersect (r other : Relation) : Relation := .combine .intersection r other

def difference (r other : Relation) : Relation := .combine .difference r other

/-- The attributes of `header` only. -/
def project (r : Relation) (header : Header) : Relation := .projection r header

/-- The tuples that satisfy `predicate`. -/
def restrict (r : Relation) (predicate : Function) : Relation := .restriction r predicate

/-- New attributes computed by the given expressions, in order. -/
def extend (r : Relation) (extensions : List (String × Operand)) : Relation :=
  .extension r extensions

/-- Grouping per tuple of `per`. -/
def summarize (r per : Relation) : Relation := .summarization r per

end Relation

end RelAlg
