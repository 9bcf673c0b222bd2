import RelAlg.Decode.Held
import RelAlg.Document.Reader
import RelAlg.Node.Basic

/-!
# Reading a document from its text

A relation, a function or a literal is read into memory as a whole before it is interpreted, so a
fault of the text anywhere in it comes before every other error; only the name of the form at its
top is looked at the moment it is read.  Everything else is read in the order of the text.  What
follows the document is looked at last.

* `hold`            : the check of a whole relation or function;
* `Decode.relation`, `Decode.function`, `Decode.literal`, `Decode.operand`, `Decode.node`;
* `Source.decode`    : a whole text as a value.
-/

namespace RelAlg

namespace Decode

/-! ## Reading into memory -/

/-- The name of the form, as it is read from the text: one of the words `words`. -/
def holdTag (words : List String) : Document → Except ReadError Unit
  | .string w => if words.contains w then .ok () else .error (.unknownWord w words)
  | d => .error (d.mismatch .tag)

/-- The members of an object that is read into memory, where `seen` tells that its form
has been named. -/
def holdMembers (room : Nat) (name : String) (words : List String) (seen : Bool) :
    List (Key × Document) → Except ReadError Unit
  | [] => .ok ()
  | (key, d) :: rest =>
    if key = .text name then
      if seen then .error (.duplicateField name)
      else do
        holdTag words d
        holdMembers room name words true rest
    else if Document.soundMembers room [(key, d)] then holdMembers room name words seen rest
    else .error .malformed

/-- Reads a relation or function into memory: its form, named by the member `name` or by the first
item, is one of `words`, all else is sound, and no more than `room` containers nest. -/
def hold (room : Nat) (name : String) (words : List String) : Document → Except ReadError Unit
  | .object ms =>
    if room = 0 then .error .malformed else holdMembers (room - 1) name words false ms
  | .array (t :: items) =>
    if room = 0 then .error .malformed
    else do
      holdTag words t
      if Document.soundItems (room - 1) items then .ok () else .error .malformed
  | _ => .ok ()

/-- A relation, where at most `room` more containers may nest. -/
def relation (room : Nat) (d : Document) : Except ReadError Relation := do
  hold room "relation" (Vocabulary.words RelationForm) d
  Held.relation d

/-- A function, where at most `room` more containers may nest. -/
def function (room : Nat) (d : Document) : Except ReadError Function := do
  hold room "function" (Vocabulary.words FunctionForm) d
  Held.function d

/-- A literal, where at most `room` more containers may nest. -/
def literal (room : Nat) (d : Document) : Except ReadError Literal :=
  if d.sound room then Held.literal d else .error .malformed

def tuple (room : Nat) (d : Document) : Except ReadError Tuple :=
  sequence (literal (room - 1)) d

/-! ## Operands and nodes -/

/-- A choice between sorts of content: an object with one member, named for the sort. -/
def choice {φ α : Type} [Vocabulary φ] (content : φ → Document → Except ReadError α) :
    Document → Except ReadError α
  | .string w => do
    let _ : φ ← known w
    .error (.invalidType .bareName .content)
  | .object ((key, d) :: rest) => do
    let sort ← knownKey key
    let a ← content sort d
    if rest.isEmpty then return a else .error .malformed
  | _ => .error .malformed

def operand (room : Nat) : Document → Except ReadError Operand :=
  choice fun
    | OperandSort.attr, d => Operand.attr <$> attr .streamed d
    | .function, d => Operand.function <$> function (room - 1) d
    | .literal, d => Operand.literal <$> literal (room - 1) d

/-- The sorts of node. -/
inductive NodeSort where
  | relation
  | function
  | attr
  | header
  | direction
  | directionSet
  | aliases
  | literal
  | count
deriving DecidableEq

instance : Vocabulary NodeSort where
  all := [.relation, .function, .attr, .header, .direction, .directionSet, .aliases,
    .literal, .count]
  word
    | .relation => "relation"
    | .function => "function"
    | .attr => "attribute"
    | .header => "header"
    | .direction => "direction"
    | .directionSet => "direction_set"
    | .aliases => "aliases"
    | .literal => "literal"
    | .count => "count"

def node (room : Nat) : Document → Except ReadError Node :=
  choice fun
    | NodeSort.relation, d => Node.relation <$> relation (room - 1) d
    | .function, d => Node.function <$> function (room - 1) d
    | .attr, d => Node.attr <$> attr .streamed d
    | .header, d => Node.header <$> header .streamed d
    | .direction, d => Node.direction <$> direction .streamed d
    | .directionSet, d => Node.directionSet <$> directionSet .streamed d
    | .aliases, d => Node.aliases <$> aliasSet .streamed d
    | .literal, d => Node.literal <$> literal (room - 1) d
    | .count, d => Node.count <$> count d

end Decode

/-! ## Whole texts -/

namespace Source

/-- A whole text as a value; what follows the document counts only if the document
itself is accepted. -/
def decode {α : Type} (read : Document → Except ReadError α) (s : Source) : Except ReadError α := do
  let a ← read s.document
  if s.complete then return a else .error .malformed

end Source

end RelAlg
