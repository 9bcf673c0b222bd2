import RelAlg.Node.Basic

/-!
# S-expressions

The nested lists that a tree is rendered as.

* `Sexp`          : lists and nine sorts of atom, one of which holds a node that no rule covers;
* `Sexp.eqv`      : equality of output, floats by their bits;
* `Literal.toSexp`: the atom or list for a literal.
-/

namespace RelAlg

inductive Sexp where
  | list (items : List Sexp)
  | symbol (name : String)
  | string (s : String)
  | integer (n : Int64)
  | unsigned (n : UInt64)
  | float (x : Binary64)
  | boolean (b : Bool)
  | null
  | kind (k : AttributeKind)
  /-- A node passed through unchanged. -/
  | node (n : Node)

instance : Inhabited Sexp := ⟨.null⟩

namespace Sexp

def isList : Sexp → Bool
  | list _ => true
  | _ => false

def isAtom (s : Sexp) : Bool := !s.isList

/-- The elements of a list. -/
def list? : Sexp → Option (List Sexp)
  | list items => some items
  | _ => none

/-- The first element of a list. -/
def head? (s : Sexp) : Option Sexp := s.list? >>= List.head?

/-- The name of a symbol. -/
def symbol? : Sexp → Option String
  | symbol name => some name
  | _ => none

mutual

/-- Nesting depth: an atom has none, a list one more than its deepest element. -/
def depth : Sexp → Nat
  | list items => 1 + depthAll items
  | _ => 0

/-- The depth of the deepest element. -/
def depthAll : List Sexp → Nat
  | [] => 0
  | s :: rest => max (depth s) (depthAll rest)

end

mutual

/-- Equality of output: floats agree when their bits do, nodes when they are numerically equal. -/
def eqv : Sexp → Sexp → Bool
  | list as, list bs => eqvAll as bs
  | symbol a, symbol b => a == b
  | string a, string b => a == b
  | integer a, integer b => a == b
  | unsigned a, unsigned b => a == b
  | float a, float b => a == b
  | boolean a, boolean b => a == b
  | null, null => true
  | kind a, kind b => a == b
  | node a, node b => a.numericEq b
  | _, _ => false

/-- `eqv` of the elements of two lists of one length. -/
def eqvAll : List Sexp → List Sexp → Bool
  | [], [] => true
  | a :: as, b :: bs => eqv a b && eqvAll as bs
  | _, _ => false

end

end Sexp

mutual

/-- A scalar literal is the atom of its sort, an array a list. -/
def Literal.toSexp : Literal → Sexp
  | .null => .null
  | .boolean b => .boolean b
  | .integer n => .integer n
  | .unsigned n => .unsigned n
  | .float x => .float x
  | .string s => .string s
  | .array items => .list (Literal.toSexps items)

/-- The elements of an array, in order. -/
def Literal.toSexps : List Literal → List Sexp
  | [] => []
  | l :: rest => l.toSexp :: Literal.toSexps rest

end

end RelAlg
