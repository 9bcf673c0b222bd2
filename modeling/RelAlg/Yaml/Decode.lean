import RelAlg.Decode.Streamed
import RelAlg.Yaml.Reading
import RelAlg.Yaml.Scalar

/-!
# Reading trees from YAML

Relations, functions and literals are turned into documents first and then read as such; everything
else is read from the nodes themselves.  There a scalar fills a text field whatever it looks like,
and a tag such as `!literal` names the sort of an operand or node.

* `Yaml.document`                       : a node as a document, in which such tags have no place;
* `Yaml.relation`, `Yaml.node` and so on: readers of the parts of a tree;
* `Yaml.decodeText`                     : a whole text.
-/

namespace RelAlg

namespace Yaml

/-! ## Nodes as documents -/

/-- The sort that the tag of a node names. -/
def sort? (tag : Option Tag) : Option String := tag >>= Tag.sort?

/-- The value of a scalar. -/
def scalarDocument? (tag : Option Tag) (isPlain : Bool) (text : String) : Option Document :=
  let untagged : Option Document := if isPlain then Scalar.resolve? text else some (.string text)
  match tag with
  | none => untagged
  | some tag =>
    if tag = .standard "bool" then (Scalar.boolean? text).map .boolean
    else if tag = .standard "int" then Scalar.whole? text.toList >>= Scalar.wholeDocument? text
    else if tag = .standard "float" then (Scalar.float? text).map .float
    else if tag = .standard "null" then if Scalar.isNull text then some .null else none
    else if tag.isLocal then untagged
    else some (.string text)

/-- The name of a member whose name is the document `d`. -/
def keyOf (d : Document) : Key :=
  match d with
  | .string s => .text s
  | .integer n => if 0 ≤ n then .index n.toNat else .foreign (.integer n)
  | d =>
    match d.found? with
    | some found => .foreign found
    | none => .unreadable

/-- How many sequences and mappings may nest. -/
def maxDepth : Nat := 128

/-- The items of a sequence, given how one is read. -/
def documents (document : Node → Reading Document) : List Node → Reading (List Document)
  | [] => return []
  | n :: rest => do
    let d ← document n
    let ds ← documents document rest
    return d :: ds

/-- The members of a mapping, given how a name and how the value of a member with that
name is read. -/
def members (name : Node → Reading Document) (value : Key → Node → Reading Document) :
    List (Node × Node) → Reading (List (Key × Document))
  | [] => return []
  | (k, v) :: rest => do
    let key := keyOf (← name k)
    let d ← value key v
    let ms ← members name value rest
    return (key, d) :: ms

/-- A node as a document, where at most `room` sequences and mappings nest.  `named` tells that the
tag of the node itself has been used to name its sort. -/
def document : (room : Nat) → (named : Bool) → Node → Reading Document
  | 0, named, n => do
    match ← n.follow with
    | .scalar p isPlain text => scalar named p isPlain text
    | .void => return .null
    | _ => failure
  | room + 1, named, n => do
    match ← n.follow with
    | .scalar p isPlain text => scalar named p isPlain text
    | .sequence p items => do
      guard (named || (sort? p.tag).isNone)
      return .array (← documents (document room false) items)
    | .mapping p ms => do
      guard (named || (sort? p.tag).isNone)
      return .object (← members (document room false) (fun _ => document room false) ms)
    | .void => return .null
    | .alias _ => failure
where
  /-- The value of a scalar; a tag that names a sort has to be used. -/
  scalar (named : Bool) (p : Properties) (isPlain : Bool) (text : String) : Reading Document := do
    guard (named || (sort? p.tag).isNone)
    scalarDocument? (if named then none else p.tag) isPlain text

/-! ## Relations, functions and literals -/

/-- A scalar whose text is taken as it is. -/
def text (n : Node) : Reading String := do
  match ← n.follow with
  | .scalar _ _ t => return t
  | _ => failure

/-- A node that holds a relation or a function, as a document whose form is named by a text: the
value of the member called `name`, or the first item.  `named` tells that the tag of the node itself
has been used to name its sort. -/
def taggedDocument (name : String) (named : Bool) (n : Node) : Reading Document := do
  let inner := document (maxDepth - 1) false
  match ← n.follow with
  | .mapping p ms => do
    guard (named || (sort? p.tag).isNone)
    let value (key : Key) (v : Node) : Reading Document :=
      if key = .text name then Document.string <$> text v else inner v
    return .object (← members inner value ms)
  | .sequence p (t :: items) => do
    guard (named || (sort? p.tag).isNone)
    let form ← text t
    return .array (.string form :: (← documents inner items))
  | _ => failure

def relationFrom (named : Bool) (n : Node) : Reading Relation := do
  (Held.relation (← taggedDocument "relation" named n)).toOption

def functionFrom (named : Bool) (n : Node) : Reading Function := do
  (Held.function (← taggedDocument "function" named n)).toOption

def literalFrom (room : Nat) (named : Bool) (n : Node) : Reading Literal := do
  Held.literal? (← document room named n)

def relation : Node → Reading Relation := relationFrom false

def function : Node → Reading Function := functionFrom false

def literal : Node → Reading Literal := literalFrom maxDepth false

/-! ## Flat parts -/

/-- An element of a vocabulary: its word, or a tag that names it in front of nothing. -/
def word {α : Type} [Vocabulary α] (n : Node) : Reading α := do
  match ← n.follow with
  | .scalar p isPlain t =>
    match sort? p.tag with
    | some w =>
      guard (isPlain && (t.isEmpty || Scalar.isNull t))
      Vocabulary.find? w
    | none => Vocabulary.find? t
  | _ => failure

/-- The values of the fields `names` in a mapping that has each of them once. -/
def fields (names : List String) (n : Node) : Reading (List Node) := do
  match ← n.follow with
  | .mapping _ ms => do
    let named ← ms.mapM fun (k, v) => (·, v) <$> text k
    names.mapM fun name =>
      match named.filter fun m => m.1 == name with
      | [(_, v)] => pure v
      | _ => failure
  | _ => failure

/-- The items of a sequence; nothing at all is a sequence without items. -/
def items (n : Node) : Reading (List Node) := do
  match ← n.follow with
  | .sequence _ items => return items
  | .scalar _ true "" | .void => return []
  | _ => failure

def attr (n : Node) : Reading Attribute := do
  match ← fields ["name", "kind"] n with
  | [name, kind] => return ⟨← text name, ← word kind⟩
  | _ => failure

def direction (n : Node) : Reading Direction := do
  match ← fields ["order", "attribute"] n with
  | [order, a] => return ⟨← word order, ← attr a⟩
  | _ => failure

def header (n : Node) : Reading Header := do
  return ⟨← (← items n).mapM attr⟩

def directionSet (n : Node) : Reading DirectionSet := do
  return ⟨← (← items n).mapM direction⟩

def aliasPair (n : Node) : Reading (String × String) := do
  match ← items n with
  | [old, new] => return (← text old, ← text new)
  | _ => failure

def aliasSet (n : Node) : Reading AliasSet := do
  return ⟨← (← items n).mapM aliasPair⟩

def tuple (n : Node) : Reading Tuple := do
  (← items n).mapM (literalFrom (maxDepth - 1) false)

/-- A whole number without a minus sign, in plain style. -/
def count (n : Node) : Reading UInt64 := do
  match ← n.follow with
  | .scalar _ true t => do
    guard (t.toList.head? != some '-')
    let n ← Scalar.whole? t.toList
    guard (n < 0x10000000000000000)
    return UInt64.ofNat n.toNat
  | _ => failure

/-! ## Operands and nodes -/

/-- The sort that the tag of a node names. -/
def sort {φ : Type} [Vocabulary φ] (n : Node) : Option φ := sort? n.tag? >>= Vocabulary.find?

def operand (n : Node) : Reading Operand := do
  match ← (sort n : Option OperandSort) with
  | .attr => Operand.attr <$> attr n
  | .function => Operand.function <$> functionFrom true n
  | .literal => Operand.literal <$> literalFrom maxDepth true n

def node (n : Node) : Reading RelAlg.Node := do
  match ← (sort n : Option Decode.NodeSort) with
  | .relation => RelAlg.Node.relation <$> relationFrom true n
  | .function => RelAlg.Node.function <$> functionFrom true n
  | .attr => RelAlg.Node.attr <$> attr n
  | .header => RelAlg.Node.header <$> header n
  | .direction => RelAlg.Node.direction <$> direction n
  | .directionSet => RelAlg.Node.directionSet <$> directionSet n
  | .aliases => RelAlg.Node.aliases <$> aliasSet n
  | .literal => RelAlg.Node.literal <$> literalFrom maxDepth true n
  | .count => RelAlg.Node.count <$> count n

/-! ## Whole texts -/

/-- The value in a text, if the text holds one document of the right form. -/
def decodeText {α : Type} (value : Node → Reading α) (t : String) : Option α :=
  Node.ofText? t >>= Node.value? value

end Yaml

end RelAlg
