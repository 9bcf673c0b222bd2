import RelAlg.Binary64

/-!
# Documents

What a reader finds in a serialized tree before it is given a meaning.  A `Document` also has room
for the places where a text stops being readable, so that of two faults the one that comes first in
the text can be told.

* `Document`           : scalars, arrays, objects whose members keep their order and repetitions;
* `Document.broken`    : from here on the text is not a document any more;
* `Document.unreadable`: grammatical, but not representable, such as `1e400`;
* `Document.sound`     : nothing in it is broken or unreadable and it nests no deeper than allowed.
-/

namespace RelAlg

/-- What stood where something else was expected. -/
inductive Found where
  | null
  | boolean (b : Bool)
  | integer (n : Int)
  | float (x : Binary64)
  | string (s : String)
  | sequence
  | map
  /-- The name of a choice without its content. -/
  | bareName
deriving DecidableEq

/-- The name of a member of an object. -/
inductive Key where
  | text (s : String)
  /-- A whole number, which names a field by its position; it does not occur in JSON. -/
  | index (n : Nat)
  /-- Some other value where a name belongs; it does not occur in JSON either. -/
  | foreign (found : Found)
  /-- A text that cannot be represented, or no name at all. -/
  | unreadable
deriving DecidableEq

inductive Document where
  | null
  | boolean (b : Bool)
  | integer (n : Int)
  /-- The whole number zero with a minus sign, which is no position; it does not occur in JSON. -/
  | minusZero
  | float (x : Binary64)
  | string (s : String)
  | array (items : List Document)
  | object (members : List (Key × Document))
  /-- A number too large for a double, or a string with half a surrogate pair. -/
  | unreadable
  /-- The text stops being a document at this place. -/
  | broken

instance : Inhabited Document := ⟨.null⟩

namespace Document

/-- The object with the given named members. -/
def ofFields (fields : List (String × Document)) : Document :=
  .object (fields.map fun (name, d) => (.text name, d))

mutual

/-- The number of arrays and objects around the innermost value. -/
def depth : Document → Nat
  | array items => 1 + depthItems items
  | object members => 1 + depthMembers members
  | _ => 0

def depthItems : List Document → Nat
  | [] => 0
  | d :: rest => max (depth d) (depthItems rest)

def depthMembers : List (Key × Document) → Nat
  | [] => 0
  | (_, d) :: rest => max (depth d) (depthMembers rest)

end

mutual

/-- Nothing in the document is broken; this is all that is asked of a value nobody reads. -/
def grammatical : Document → Bool
  | array items => grammaticalItems items
  | object members => grammaticalMembers members
  | broken => false
  | _ => true

def grammaticalItems : List Document → Bool
  | [] => true
  | d :: rest => grammatical d && grammaticalItems rest

def grammaticalMembers : List (Key × Document) → Bool
  | [] => true
  | (_, d) :: rest => grammatical d && grammaticalMembers rest

end

mutual

/-- Everything in the document can be represented, its names included, and at most `room` arrays and
objects are nested. -/
def sound (room : Nat) : Document → Bool
  | array items => decide (0 < room) && soundItems (room - 1) items
  | object members => decide (0 < room) && soundMembers (room - 1) members
  | unreadable | broken => false
  | _ => true

def soundItems (room : Nat) : List Document → Bool
  | [] => true
  | d :: rest => sound room d && soundItems room rest

def soundMembers (room : Nat) : List (Key × Document) → Bool
  | [] => true
  | (.text _, d) :: rest => sound room d && soundMembers room rest
  | _ :: _ => false

end

/-- How many arrays and objects a document may nest. -/
def maxDepth : Nat := 127

/-- What an error says about a value, `none` where the text itself is at fault. -/
def found? : Document → Option Found
  | null => some .null
  | boolean b => some (.boolean b)
  | integer n => some (.integer n)
  | minusZero => some (.integer 0)
  | float x => some (.float x)
  | string s => some (.string s)
  | array _ => some .sequence
  | object _ => some .map
  | unreadable | broken => none

end Document

end RelAlg
