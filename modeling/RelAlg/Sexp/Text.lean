import RelAlg.Document.Encoding
import RelAlg.Document.Writer
import RelAlg.Sexp.Basic
import RelAlg.Sexp.Symbol

/-!
# S-expressions as text

Parenthesised text, on one line or broken over lines.

* `Sexp.compact`: everything on one line;
* `Sexp.pretty` : a list whose elements nest at least two deep is broken.  Its leading atoms stay
  beside the parenthesis and everything from the first sublist on gets a line of its own, two
  columns in; a list that starts with a sublist has all its elements one column in.
-/

namespace RelAlg

namespace Sexp

/-- The text of an atom; a list has none. -/
def atomText : Sexp → List Char
  | symbol name => Symbol.text name
  | string s => Quoted.text s
  | integer n => Numeral.ofInt n.toInt
  | unsigned n => Numeral.ofNat n.toNat
  | float x => Layout.expression.text x
  | boolean true => ['t', 'r', 'u', 'e']
  | boolean false => ['f', 'a', 'l', 's', 'e']
  | null => ['n', 'i', 'l']
  | kind k => k.displayName.toList
  | node n => '#' :: n.toDocument.compact
  | list _ => []

mutual

/-- The text on one line. -/
def compact : Sexp → List Char
  | list [] => ['(', ')']
  | list (s :: rest) => '(' :: (compact s ++ compactRest rest ++ [')'])
  | s => atomText s

/-- Further elements, each behind a blank. -/
def compactRest : List Sexp → List Char
  | [] => []
  | s :: rest => ' ' :: (compact s ++ compactRest rest)

end

/-- A line feed and the blanks before a column. -/
def newLine (column : Nat) : List Char := '\n' :: List.replicate column ' '

/-- Lists whose elements nest less than this stay on one line. -/
def flatDepth : Nat := 2

mutual

/-- The text over several lines, where `column` is the column of its first character. -/
def pretty (column : Nat) : Sexp → List Char
  | list [] => ['(', ')']
  | list (s :: rest) =>
    if depthAll (s :: rest) < flatDepth then compact (list (s :: rest))
    else if s.isAtom then '(' :: (atomText s ++ prettyLeading (column + 2) rest ++ [')'])
    else '(' :: (pretty (column + 1) s ++ prettyLines (column + 1) rest ++ [')'])
  | s => atomText s

/-- What follows an atom beside the parenthesis. -/
def prettyLeading (column : Nat) : List Sexp → List Char
  | [] => []
  | s :: rest =>
    if s.isAtom then ' ' :: (atomText s ++ prettyLeading column rest)
    else newLine column ++ pretty column s ++ prettyLines column rest

/-- Elements that each start a line. -/
def prettyLines (column : Nat) : List Sexp → List Char
  | [] => []
  | s :: rest => newLine column ++ pretty column s ++ prettyLines column rest

end

/-- The text, over several lines if `isPretty`. -/
def render (isPretty : Bool) (s : Sexp) : String :=
  String.ofList (if isPretty then s.pretty 0 else s.compact)

/-! ## As documents -/

/-- A string that a symbol could be taken for, or that starts with a backslash, gets a
backslash in front. -/
def guarded (s : String) : String :=
  match s.toList with
  | ':' :: _ | '\\' :: _ => "\\" ++ s
  | _ => s

mutual

/-- Lists are arrays, and symbols are strings with a colon in front. -/
def toDocument : Sexp → Document
  | list items => .array (toDocuments items)
  | symbol name => .string (":" ++ name)
  | string s => .string (guarded s)
  | integer n => .integer n.toInt
  | unsigned n => .integer n.toNat
  | float x => .float x
  | boolean b => .boolean b
  | null => .null
  | kind k => .string k.displayName
  | node n => n.toDocument

def toDocuments : List Sexp → List Document
  | [] => []
  | s :: rest => toDocument s :: toDocuments rest

end

end Sexp

end RelAlg
