import RelAlg.Yaml.Token

/-!
# Nodes of a YAML document

The tokens of a text are composed into one tree.  Tags are spelled out.  An anchor gets a number,
which its aliases carry: they stand for whichever node with that number starts last in the text.
The number is the count of different names before, so an anchor that takes a name for the second
time may share its number with the next new name.

* `Yaml.Node`        : scalars, sequences and mappings with their properties, and aliases;
* `Node.anchored`    : the nodes that aliases may stand for;
* `Composer`         : the tokens ahead and the names behind;
* `Yaml.Node.ofText?`: the document of a text that holds at most one.
-/

namespace RelAlg

namespace Yaml

/-- What may stand in front of a node. -/
structure Properties where
  /-- The number of its anchor. -/
  anchor : Option Nat
  tag : Option Tag

/-- No anchor and no tag. -/
def Properties.none : Properties := ⟨.none, .none⟩

inductive Node where
  | scalar (p : Properties) (isPlain : Bool) (text : String)
  | sequence (p : Properties) (items : List Node)
  | mapping (p : Properties) (members : List (Node × Node))
  /-- An alias for a node whose anchor has this number. -/
  | alias (anchor : Nat)
  /-- A text without a document. -/
  | void

instance : Inhabited Node := ⟨.void⟩

namespace Node

/-- What stands where a node is left out. -/
def empty : Node := .scalar .none true ""

/-- The tag of a node. -/
def tag? : Node → Option Tag
  | .scalar p _ _ | .sequence p _ | .mapping p _ => p.tag
  | .alias _ | .void => none

/-! ## Anchored nodes -/

/-- A node with the number of its anchor, if it has one. -/
def numbered (p : Properties) (n : Node) : List (Nat × Node) :=
  match p.anchor with
  | some anchor => [(anchor, n)]
  | none => []

mutual

/-- The anchored nodes in a node, in the order in which they start. -/
def anchored : Node → List (Nat × Node)
  | .scalar p isPlain text => numbered p (.scalar p isPlain text)
  | .sequence p items => numbered p (.sequence p items) ++ anchoredItems items
  | .mapping p members => numbered p (.mapping p members) ++ anchoredMembers members
  | .alias _ | .void => []

def anchoredItems : List Node → List (Nat × Node)
  | [] => []
  | n :: rest => anchored n ++ anchoredItems rest

def anchoredMembers : List (Node × Node) → List (Nat × Node)
  | [] => []
  | (k, v) :: rest => anchored k ++ anchored v ++ anchoredMembers rest

end

mutual

/-- The size of a node: a scalar or an alias is one step of the text, and so are both ends
of a collection. -/
def size : Node → Nat
  | .scalar .. | .alias _ | .void => 1
  | .sequence _ items => 2 + sizeItems items
  | .mapping _ members => 2 + sizeMembers members

def sizeItems : List Node → Nat
  | [] => 0
  | n :: rest => size n + sizeItems rest

def sizeMembers : List (Node × Node) → Nat
  | [] => 0
  | (k, v) :: rest => size k + size v + sizeMembers rest

end

end Node

/-! ## Composing -/

structure Composer where
  tokens : List Token
  /-- The names of the anchors so far, each once, with the number that it stands for at present. -/
  names : List (String × Nat)
  /-- Tag handles and what they stand for. -/
  handles : List (String × Tag)

namespace Composer

/-- The tag written with a handle. -/
def resolveTag (s : Composer) (handle : String) (tail : Tag) : Option Tag :=
  if handle.isEmpty then some tail else (s.handles.lookup handle).map (· ++ tail)

/-- The composer behind the next tokens. -/
def behind (s : Composer) (rest : List Token) : Composer := { s with tokens := rest }

/-- Gives a name to the node that starts here. -/
def name (s : Composer) (a : String) : Nat × Composer :=
  let number := s.names.length
  (number, { s with names := (a, number) :: s.names.filter fun entry => entry.1 != a })

/-- An anchor and a tag in front of a node, in either order. -/
def properties (s : Composer) : Option (Properties × Composer) :=
  match s.tokens with
  | .anchor a :: .tag h t :: rest | .tag h t :: .anchor a :: rest => do
    let (number, s) := s.name a
    return (⟨some number, some (← s.resolveTag h t)⟩, s.behind rest)
  | .anchor a :: rest =>
    let (number, s) := s.name a
    some (⟨some number, none⟩, s.behind rest)
  | .tag h t :: rest => do
    return (⟨none, some (← s.resolveTag h t)⟩, s.behind rest)
  | _ => some (.none, s)

/-- A scalar may be left out behind an anchor or a tag. -/
def omitted (p : Properties) (s : Composer) : Option (Node × Composer) :=
  if p.anchor.isSome || p.tag.isSome then some (.scalar p true "", s) else none

mutual

/-- A node.  In a flow collection no block can start, and only as a value in a mapping may a
sequence stand without indentation of its own. -/
def node : Nat → (inBlock unindented : Bool) → Composer → Option (Node × Composer)
  | 0, _, _, _ => none
  | steps + 1, inBlock, unindented, s =>
    match s.tokens with
    | .alias a :: rest => do
      let number ← s.names.lookup a
      return (.alias number, s.behind rest)
    | _ => do
      let (p, s) ← s.properties
      content steps inBlock unindented p s

/-- A node behind its properties. -/
def content : Nat → (inBlock unindented : Bool) → Properties → Composer → Option (Node × Composer)
  | 0, _, _, _, _ => none
  | steps + 1, inBlock, unindented, p, s =>
    match s.tokens with
    | .scalar isPlain text :: rest => some (.scalar p isPlain text, s.behind rest)
    | .flowSequenceStart :: rest => do
      let (items, s) ← flowItems steps true (s.behind rest)
      return (.sequence p items, s)
    | .flowMappingStart :: rest => do
      let (members, s) ← flowMembers steps true (s.behind rest)
      return (.mapping p members, s)
    | .blockSequenceStart :: rest =>
      if inBlock then do
        let (items, s) ← blockItems steps (s.behind rest)
        return (.sequence p items, s)
      else none
    | .blockMappingStart :: rest =>
      if inBlock then do
        let (members, s) ← blockMembers steps (s.behind rest)
        return (.mapping p members, s)
      else none
    | .blockEntry :: _ =>
      if unindented then do
        let (items, s) ← unindentedItems steps s
        return (.sequence p items, s)
      else omitted p s
    | _ => omitted p s

/-- The entries of a block sequence, up to its end. -/
def blockItems : Nat → Composer → Option (List Node × Composer)
  | 0, _ => none
  | steps + 1, s =>
    match s.tokens with
    | .blockEnd :: rest => some ([], s.behind rest)
    | .blockEntry :: rest => do
      let s := s.behind rest
      let (n, s) ← match rest with
        | .blockEntry :: _ | .blockEnd :: _ => some (.empty, s)
        | _ => node steps true false s
      let (ns, s) ← blockItems steps s
      return (n :: ns, s)
    | _ => none

/-- The entries of a sequence that stands at the column of the mapping around it. -/
def unindentedItems : Nat → Composer → Option (List Node × Composer)
  | 0, _ => none
  | steps + 1, s =>
    match s.tokens with
    | .blockEntry :: rest => do
      let s := s.behind rest
      let (n, s) ← match rest with
        | .blockEntry :: _ | .key :: _ | .value :: _ | .blockEnd :: _ => some (.empty, s)
        | _ => node steps true false s
      let (ns, s) ← unindentedItems steps s
      return (n :: ns, s)
    | _ => some ([], s)

/-- The members of a block mapping, up to its end. -/
def blockMembers : Nat → Composer → Option (List (Node × Node) × Composer)
  | 0, _ => none
  | steps + 1, s =>
    match s.tokens with
    | .blockEnd :: rest => some ([], s.behind rest)
    | .key :: rest => do
      let (k, s) ← blockPart steps (s.behind rest)
      let (v, s) ← match s.tokens with
        | .value :: rest => blockPart steps (s.behind rest)
        | _ => some (.empty, s)
      let (ms, s) ← blockMembers steps s
      return ((k, v) :: ms, s)
    | _ => none

/-- The key or value of a block mapping, which may be left out. -/
def blockPart : Nat → Composer → Option (Node × Composer)
  | 0, _ => none
  | steps + 1, s =>
    match s.tokens with
    | .key :: _ | .value :: _ | .blockEnd :: _ => some (.empty, s)
    | _ => node steps true true s

/-- The items of a flow sequence; before every item but the first stands a comma. -/
def flowItems : Nat → (first : Bool) → Composer → Option (List Node × Composer)
  | 0, _, _ => none
  | steps + 1, first, s =>
    match s.tokens with
    | .flowSequenceEnd :: rest => some ([], s.behind rest)
    | _ => do
      let s ← match first, s.tokens with
        | true, _ => some s
        | false, .flowEntry :: rest => some (s.behind rest)
        | false, _ => none
      match s.tokens with
      | .flowSequenceEnd :: rest => return ([], s.behind rest)
      | .key :: rest => do
        let (k, s) ← pairKey steps (s.behind rest)
        let (v, s) ← match s.tokens with
          | .value :: rest => flowPart steps (s.behind rest)
          | _ => some (.empty, s)
        let (ns, s) ← flowItems steps false s
        return (.mapping .none [(k, v)] :: ns, s)
      | _ => do
        let (n, s) ← node steps false false s
        let (ns, s) ← flowItems steps false s
        return (n :: ns, s)

/-- The key of a pair in a flow sequence.  It may be left out, and the token in its
place is passed. -/
def pairKey : Nat → Composer → Option (Node × Composer)
  | 0, _ => none
  | steps + 1, s =>
    match s.tokens with
    | .value :: rest | .flowEntry :: rest | .flowSequenceEnd :: rest => some (.empty, s.behind rest)
    | _ => node steps false false s

/-- The members of a flow mapping; before every member but the first stands a comma. -/
def flowMembers : Nat → (first : Bool) → Composer → Option (List (Node × Node) × Composer)
  | 0, _, _ => none
  | steps + 1, first, s =>
    match s.tokens with
    | .flowMappingEnd :: rest => some ([], s.behind rest)
    | _ => do
      let s ← match first, s.tokens with
        | true, _ => some s
        | false, .flowEntry :: rest => some (s.behind rest)
        | false, _ => none
      match s.tokens with
      | .flowMappingEnd :: rest => return ([], s.behind rest)
      | .key :: rest => do
        let (k, s) ← flowPart steps (s.behind rest)
        let (v, s) ← match s.tokens with
          | .value :: rest => flowPart steps (s.behind rest)
          | _ => some (.empty, s)
        let (ms, s) ← flowMembers steps false s
        return ((k, v) :: ms, s)
      | _ => do
        let (k, s) ← node steps false false s
        let (ms, s) ← flowMembers steps false s
        return ((k, .empty) :: ms, s)

/-- The key or value in a flow mapping, or the value of a pair in a flow sequence, which may
be left out. -/
def flowPart : Nat → Composer → Option (Node × Composer)
  | 0, _ => none
  | steps + 1, s =>
    match s.tokens with
    | .value :: _ | .flowEntry :: _ | .flowSequenceEnd :: _ | .flowMappingEnd :: _ =>
      some (.empty, s)
    | _ => node steps false false s

end

/-! ## Documents -/

/-- The handles that need no directive. -/
def defaultHandles : List (String × Tag) := [("!", .mark), ("!!", .standard "")]

/-- The directives at the start of a document: each handle once, the version once. -/
def directives (version : Bool) (handles : List (String × Tag)) :
    List Token → Option (List (String × Tag) × List Token)
  | .versionDirective :: rest => if version then none else directives true handles rest
  | .tagDirective h r :: rest =>
    if (handles.lookup h).isSome then none else directives version ((h, r) :: handles) rest
  | rest => some (handles, rest)

/-- The document in a list of tokens; nothing but ends of documents may follow it. -/
def document (tokens : List Token) : Option Node := do
  let (own, rest) ← directives false [] tokens
  let start : Composer := ⟨rest, [], own ++ defaultHandles⟩
  let steps := 3 * tokens.length + 3
  let (n, s) ← match tokens, rest with
    | [], _ => some (.void, start)
    | _, .documentStart :: more =>
      match more with
      | [] | .documentStart :: _ | .documentEnd :: _ | .versionDirective :: _
      | .tagDirective _ _ :: _ =>
        some (.empty, start.behind more)
      | _ => node steps true false (start.behind more)
    | .versionDirective :: _, _ | .tagDirective _ _ :: _, _ => none
    | _, _ => node steps true false start
  if s.tokens.all (· == .documentEnd) then some n else none

end Composer

namespace Node

/-- The document of a text. -/
def ofText? (text : String) : Option Node := Token.ofText? text >>= Composer.document

end Node

end Yaml

end RelAlg
