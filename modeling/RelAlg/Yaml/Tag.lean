import RelAlg.Numeral
import RelAlg.Yaml.Place

/-!
# Tags of YAML nodes

A tag is a string of octets.  It is written with some ASCII characters, each for itself, and with
escapes, each for one octet.  Escapes come in groups that are as long as their first octet asks for,
but need not spell a character.

* `Yaml.Tag`   : a tag or a part of one;
* `Tag.sort?`  : the sort that a tag such as `!literal` names;
* `Tag.spelled`: the octets of a tag as it is written;
* `Tag.at?`    : a tag in a text, with the handle that shortens it.
-/

namespace RelAlg

namespace Yaml

structure Tag where
  octets : List UInt8
deriving DecidableEq

namespace Tag

/-- The octets up to the first zero, which ends a tag. -/
def ofOctets (octets : List UInt8) : Tag := ⟨octets.takeWhile (· != 0)⟩

/-- The tag with the given characters, which are ASCII. -/
def ofAscii (cs : List Char) : Tag := ⟨cs.map fun c => UInt8.ofNat c.toNat⟩

instance : Append Tag := ⟨fun t u => ⟨t.octets ++ u.octets⟩⟩

/-- A tag of the vocabulary that all texts share. -/
def standard (name : String) : Tag := ofAscii ("tag:yaml.org,2002:" ++ name).toList

/-- The tag `!`. -/
def mark : Tag := ofAscii ['!']

/-- The tag starts with an exclamation mark, so its meaning is a matter of the text at hand. -/
def isLocal (t : Tag) : Bool := t.octets.head? == some 0x21

/-- The sort that a local tag names; octets that are no text name nothing. -/
def sort? (t : Tag) : Option String :=
  if t.isLocal then String.fromUTF8? ⟨(t.octets.drop 1).toArray⟩ else none

/-! ## Tags as they are written -/

/-- The characters of a tag besides the escapes; the last three only between angles
and in directives. -/
def isTagChar (between : Bool) (c : Char) : Bool :=
  isWordChar c
    || [';', '/', '?', ':', '@', '&', '=', '+', '$', '.', '!', '~', '*', '\'', '(', ')'].contains c
    || (between && [',', '[', ']'].contains c)

/-- The number of octets in a group of escapes that starts with `octet`. -/
def groupWidth? (octet : UInt8) : Option Nat :=
  if octet < 0x80 then some 1
  else if octet < 0xC0 then none
  else if octet < 0xE0 then some 2
  else if octet < 0xF0 then some 3
  else if octet < 0xF8 then some 4
  else none

/-- The octet is not the first of its group. -/
def continuesGroup (octet : UInt8) : Bool := 0x80 ≤ octet && octet < 0xC0

/-- The octets of a tag and the number of characters that spell them, where `pending` octets are
missing in a group of escapes. -/
def spelled (between : Bool) : (pending : Nat) → List Char → Option (List UInt8 × Nat)
  | pending, '%' :: a :: b :: rest => do
    let octet := UInt8.ofNat (← Numeral.valueInBase? 16 [a, b])
    let width ←
      if pending = 0 then groupWidth? octet
      else if continuesGroup octet then some pending else none
    let (octets, length) ← spelled between (width - 1) rest
    return (octet :: octets, length + 3)
  | 0, c :: rest =>
    if isTagChar between c then do
      let (octets, length) ← spelled between 0 rest
      return (UInt8.ofNat c.toNat :: octets, length + 1)
    else if c == '%' then none
    else some ([], 0)
  | 0, [] => some ([], 0)
  | _ + 1, _ => none

/-- The tag at a place: its handle, what follows the handle, and the place behind it. -/
def at? (flow : Bool) (p : Place) : Option (String × Tag × Place) := do
  let (handle, tail, p) : String × Tag × Place ←
    if (p.advance 1).startsWith '<' then do
      let p := p.advance 2
      let (octets, length) ← spelled true 0 p.rest
      let p := p.advance length
      guard (!octets.isEmpty && p.startsWith '>')
      pure ("", ofOctets octets, p.advance 1)
    else do
      let (name, q) := (p.advance 1).span isWordChar
      if q.startsWith '!' then do
        let q := q.advance 1
        let (octets, length) ← spelled false 0 q.rest
        guard (!octets.isEmpty)
        pure ("!" ++ String.ofList name ++ "!", ofOctets octets, q.advance length)
      else do
        let (octets, length) ← spelled false 0 q.rest
        let tail := ofAscii name ++ ofOctets octets
        pure (if tail.octets.isEmpty then ("", mark, q.advance length)
          else ("!", tail, q.advance length))
  guard (endsWord p.rest || (flow && p.startsWith ','))
  return (handle, tail, p)

end Tag

end Yaml

end RelAlg
