import RelAlg.Binary64.Layout
import RelAlg.Document.Basic
import RelAlg.Document.Quoted

/-!
# Writing documents

A document is written on one line without blanks, or with one item or member a line, indented by two
blanks a level.  Both are one function: `none` stands for the first form, the level of indentation
for the second.

* `Document.write`  : the text at a level;
* `Document.compact`, `Document.pretty`: the two forms.
-/

namespace RelAlg

namespace Key

/-- The name as it is written. -/
def spelling : Key → String
  | text s => s
  | index n => String.ofList (Numeral.ofNat n)
  | foreign _ | unreadable => ""

end Key

namespace Document

/-- A line feed and the blanks of a level; nothing on one line. -/
def lineBreak : Option Nat → List Char
  | none => []
  | some level => '\n' :: List.replicate (2 * level) ' '

/-- What stands between a name and its value. -/
def colon : Option Nat → List Char
  | none => [':']
  | some _ => [':', ' ']

mutual

def write (level : Option Nat) : Document → List Char
  | null => ['n', 'u', 'l', 'l']
  | boolean true => ['t', 'r', 'u', 'e']
  | boolean false => ['f', 'a', 'l', 's', 'e']
  | integer n => Numeral.ofInt n
  | minusZero => '-' :: Numeral.ofNat 0
  | float x => Layout.document.text x
  | string s => Quoted.text s
  | array [] => ['[', ']']
  | array (d :: rest) =>
    '[' :: (lineBreak (level.map (· + 1)) ++ write (level.map (· + 1)) d
      ++ writeItems (level.map (· + 1)) rest ++ lineBreak level ++ [']'])
  | object [] => ['{', '}']
  | object ((k, d) :: rest) =>
    '{' :: (lineBreak (level.map (· + 1)) ++ Quoted.text k.spelling ++ colon level
      ++ write (level.map (· + 1)) d ++ writeMembers (level.map (· + 1)) rest
      ++ lineBreak level ++ ['}'])
  | unreadable => ['n', 'u', 'l', 'l']
  | broken => ['n', 'u', 'l', 'l']

/-- Further items, each behind a comma. -/
def writeItems (level : Option Nat) : List Document → List Char
  | [] => []
  | d :: rest => ',' :: (lineBreak level ++ write level d ++ writeItems level rest)

/-- Further members, each behind a comma. -/
def writeMembers (level : Option Nat) : List (Key × Document) → List Char
  | [] => []
  | (k, d) :: rest =>
    ',' :: (lineBreak level ++ Quoted.text k.spelling ++ colon level ++ write level d
      ++ writeMembers level rest)

end

/-- The text on one line. -/
def compact (d : Document) : List Char := d.write none

/-- The text over several lines. -/
def pretty (d : Document) : List Char := d.write (some 0)

/-- The text of a document, over several lines if `isPretty`. -/
def render (isPretty : Bool) (d : Document) : String :=
  String.ofList (if isPretty then d.pretty else d.compact)

end Document

end RelAlg
