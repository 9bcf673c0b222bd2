import RelAlg.Yaml.ScalarText
import RelAlg.Yaml.Tag

/-!
# Tokens of a YAML text

The text is cut into tokens with its indentation made explicit: a deeper column opens a block, a
shallower one closes it.  A key is only recognised by the colon behind it, so the place of every
node that may turn out to be a key is kept until a colon or the end of the line decides.

* `Token`       : the tokens;
* `Scanner`     : what is known between two tokens;
* `Token.ofText?`: all tokens of a text, `none` if it cannot be cut.
-/

namespace RelAlg

namespace Yaml

inductive Token where
  | documentStart
  | documentEnd
  | versionDirective
  /-- A tag handle and what it stands for. -/
  | tagDirective (handle : String) (replacement : Tag)
  | blockSequenceStart
  | blockMappingStart
  | blockEnd
  | flowSequenceStart
  | flowSequenceEnd
  | flowMappingStart
  | flowMappingEnd
  | blockEntry
  | flowEntry
  | key
  | value
  | alias (name : String)
  | anchor (name : String)
  | tag (handle : String) (tail : Tag)
  | scalar (isPlain : Bool) (text : String)
deriving DecidableEq

/-- A place where a node starts that may turn out to be a key. -/
structure Candidate where
  /-- The number of tokens before the node. -/
  position : Nat
  octet : Nat
  line : Nat
  column : Nat
  /-- The node has to be a key: it starts at the column of a block mapping. -/
  isRequired : Bool

structure Scanner where
  place : Place
  tokens : Array Token
  /-- A key may start here. -/
  keyAllowed : Bool
  /-- The column of the innermost block, -1 outside of all. -/
  indent : Int
  /-- The columns of the blocks around it. -/
  outer : List Int
  /-- The candidate of the innermost flow collection, or of the block outside of all. -/
  candidate : Option Candidate
  /-- The candidates of the flow collections around it, one for each. -/
  outerCandidates : List (Option Candidate)

namespace Scanner

def start (p : Place) : Scanner :=
  { place := p, tokens := #[], keyAllowed := true, indent := -1, outer := [], candidate := none
    outerCandidates := [] }

/-- Inside a flow collection. -/
def inFlow (s : Scanner) : Bool := !s.outerCandidates.isEmpty

def push (s : Scanner) (t : Token) : Scanner := { s with tokens := s.tokens.push t }

/-- Passes `n` characters and adds a token. -/
def take (s : Scanner) (n : Nat) (t : Token) : Scanner :=
  { s with place := s.place.advance n, tokens := s.tokens.push t }

/-! ## Blocks -/

/-- Opens a block at a column deeper than the innermost one; its token goes to `position`. -/
def openBlock (s : Scanner) (column position : Nat) (t : Token) : Scanner :=
  if s.inFlow || (column : Int) ≤ s.indent then s
  else
    { s with
      indent := column
      outer := s.indent :: s.outer
      tokens := (s.tokens.toList.take position ++ t :: s.tokens.toList.drop position).toArray }

/-- Closes the blocks deeper than a column. -/
def closeBlocks (s : Scanner) (column : Int) : Scanner :=
  if s.inFlow then s else go s s.outer
where
  go (s : Scanner) : List Int → Scanner
    | [] => s
    | up :: rest =>
      if column < s.indent then
        go { s with indent := up, outer := rest, tokens := s.tokens.push .blockEnd } rest
      else s

/-! ## Keys -/

/-- Gives up the candidate; a required key must not be given up. -/
def dropCandidate (s : Scanner) : Option Scanner :=
  match s.candidate with
  | some c => if c.isRequired then none else some { s with candidate := none }
  | none => some s

/-- The node that starts here may turn out to be a key, if keys are allowed. -/
def markCandidate (s : Scanner) : Option Scanner :=
  if s.keyAllowed then do
    let s ← s.dropCandidate
    let c : Candidate := {
      position := s.tokens.size
      octet := s.place.octet
      line := s.place.line
      column := s.place.column
      isRequired := !s.inFlow && s.indent == s.place.column }
    return { s with candidate := some c }
  else some s

/-- A key is written on one line and within 1024 octets. -/
def isStale (p : Place) (c : Candidate) : Bool := c.line < p.line || c.octet + 1024 < p.octet

/-- Forgets the candidates that cannot be keys any more. -/
def dropStale (s : Scanner) : Option Scanner := do
  let check (c : Option Candidate) : Option (Option Candidate) :=
    match c with
    | some c =>
      if isStale s.place c then (if c.isRequired then none else some none) else some (some c)
    | none => some none
  return { s with
    candidate := ← check s.candidate
    outerCandidates := ← s.outerCandidates.mapM check }

/-! ## Blanks and comments -/

/-- Passes blanks, comments and line breaks, and a byte-order mark at the start of a line, which
takes a column.  In a block a tab is no blank where a key may start, and a new line allows keys. -/
def skipBlanks : Nat → Scanner → Scanner
  | 0, s => s
  | steps + 1, s =>
    let p :=
      if s.place.column == 0 && s.place.startsWith '\ufeff' then s.place.advance 1 else s.place
    let (_, p) := p.span fun c => c == ' ' || (c == '\t' && (s.inFlow || !s.keyAllowed))
    let p := if p.startsWith '#' then (p.span fun c => !isBreak c).2 else p
    match p.lineBreak? with
    | some (_, q) => skipBlanks steps { s with place := q, keyAllowed := s.keyAllowed || !s.inFlow }
    | none => { s with place := p }

/-! ## Single tokens -/

/-- `-` in front of an entry. -/
def blockEntry (s : Scanner) : Option Scanner := do
  guard (s.inFlow || s.keyAllowed)
  let s := s.openBlock s.place.column s.tokens.size .blockSequenceStart
  let s ← s.dropCandidate
  return { s.take 1 .blockEntry with keyAllowed := true }

/-- `?` in front of a key. -/
def explicitKey (s : Scanner) : Option Scanner := do
  guard (s.inFlow || s.keyAllowed)
  let s := s.openBlock s.place.column s.tokens.size .blockMappingStart
  let s ← s.dropCandidate
  return { s.take 1 .key with keyAllowed := !s.inFlow }

/-- `:` behind a key. -/
def keyValue (s : Scanner) : Option Scanner :=
  match s.candidate with
  | some c =>
    let tokens := s.tokens.toList
    let s := { s with
      tokens := (tokens.take c.position ++ Token.key :: tokens.drop c.position).toArray
      candidate := none }
    let s := s.openBlock c.column c.position .blockMappingStart
    some { s.take 1 .value with keyAllowed := false }
  | none => do
    guard (s.inFlow || s.keyAllowed)
    let s := s.openBlock s.place.column s.tokens.size .blockMappingStart
    return { s.take 1 .value with keyAllowed := !s.inFlow }

def openFlow (s : Scanner) (t : Token) : Option Scanner := do
  let s ← s.markCandidate
  return { s.take 1 t with
    keyAllowed := true, candidate := none, outerCandidates := s.candidate :: s.outerCandidates }

def closeFlow (s : Scanner) (t : Token) : Option Scanner := do
  let s ← s.dropCandidate
  let s := match s.outerCandidates with
    | c :: rest => { s with candidate := c, outerCandidates := rest }
    | [] => s
  return { s.take 1 t with keyAllowed := false }

def flowEntry (s : Scanner) : Option Scanner := do
  let s ← s.dropCandidate
  return { s.take 1 .flowEntry with keyAllowed := true }

/-- A node that starts here and is over at `p`. -/
def node (s : Scanner) (t : Token) (p : Place) : Option Scanner := do
  let s ← s.markCandidate
  return { s.push t with place := p, keyAllowed := false }

/-- The name of an anchor or alias and the place behind it. -/
def anchorName (p : Place) : Option (String × Place) := do
  let (name, p) := (p.advance 1).span isWordChar
  guard (!name.isEmpty)
  guard (endsWord p.rest || p.rest.head?.any (['?', ':', ',', ']', '}', '%', '@', '`'].contains ·))
  return (String.ofList name, p)

/-- The rest of a line holds nothing but a comment. -/
def endOfLine (p : Place) : Option Place := do
  let (_, p) := p.span isBlank
  let p := if p.startsWith '#' then (p.span fun c => !isBreak c).2 else p
  if p.rest.isEmpty then some p else p.lineBreak?.map (·.2)

/-- A number in a version: one to nine digits. -/
def isVersionPart (digits : List Char) : Bool := !digits.isEmpty && digits.length ≤ 9

/-- A line that starts with a percent sign. -/
def directive (s : Scanner) : Option Scanner := do
  let s ← (s.closeBlocks (-1)).dropCandidate
  let (name, p) := (s.place.advance 1).span isWordChar
  guard (!name.isEmpty && endsWord p.rest)
  let (_, p) := p.span isBlank
  match String.ofList name with
  | "YAML" => do
    let (major, p) := p.span Char.isDigit
    guard (p.startsWith '.')
    let (minor, p) := (p.advance 1).span Char.isDigit
    guard (isVersionPart major && isVersionPart minor)
    guard (Numeral.value major == 1 && (Numeral.value minor == 1 || Numeral.value minor == 2))
    return { s.push .versionDirective with place := ← endOfLine p, keyAllowed := false }
  | "TAG" => do
    guard (p.startsWith '!')
    let (handle, q) := (p.advance 1).span isWordChar
    let (handle, q) :=
      if q.startsWith '!' then ('!' :: handle ++ ['!'], q.advance 1) else ('!' :: handle, q)
    guard (handle.length == 1 || handle.getLast? == some '!')
    guard (q.rest.head?.any isBlank)
    let (_, q) := q.span isBlank
    let (octets, length) ← Tag.spelled true 0 q.rest
    let q := q.advance length
    guard (!octets.isEmpty && endsWord q.rest)
    return { s.push (.tagDirective (String.ofList handle) (Tag.ofOctets octets)) with
      place := ← endOfLine q, keyAllowed := false }
  | _ => none

/-- `---` or `...` at the start of a line. -/
def documentMark (s : Scanner) (t : Token) : Option Scanner := do
  let s ← (s.closeBlocks (-1)).dropCandidate
  return { s.take 3 t with keyAllowed := false }

/-- A block scalar; keys are allowed behind it. -/
def block (s : Scanner) (folded : Bool) : Option Scanner := do
  let s ← s.dropCandidate
  let (text, p) ← blockScalar folded s.indent s.place
  return { s.push (.scalar false (String.ofList text)) with place := p, keyAllowed := true }

def flowScalar (s : Scanner) (double : Bool) : Option Scanner := do
  let (text, p) ← quoted double s.place
  s.node (.scalar false (String.ofList text)) p

def plainScalar (s : Scanner) : Option Scanner := do
  let r ← plain s.inFlow (s.indent + 1).toNat s.place
  let s ← s.node (.scalar true (String.ofList r.text)) r.place
  return { s with keyAllowed := r.broken }

/-- Characters that cannot start a plain scalar on their own. -/
def isIndicator (c : Char) : Bool :=
  ['-', '?', ':', ',', '[', ']', '{', '}', '#', '&', '*', '!', '|', '>', '\'', '"', '%', '@',
    '`'].contains c

/-- Reads the token that starts with `c`, where `rest` follows. -/
def token (s : Scanner) (c : Char) (rest : List Char) : Option Scanner :=
  let lone := endsWord rest
  let atStart := s.place.column == 0
  if atStart && c == '%' then s.directive
  else if atStart && s.place.marks '-' then s.documentMark .documentStart
  else if atStart && s.place.marks '.' then s.documentMark .documentEnd
  else if c == '[' then s.openFlow .flowSequenceStart
  else if c == '{' then s.openFlow .flowMappingStart
  else if c == ']' then s.closeFlow .flowSequenceEnd
  else if c == '}' then s.closeFlow .flowMappingEnd
  else if c == ',' then s.flowEntry
  else if c == '-' && lone then s.blockEntry
  else if c == '?' && (s.inFlow || lone) then s.explicitKey
  else if c == ':' && (s.inFlow || lone) then s.keyValue
  else if c == '*' then do
    let (name, p) ← anchorName s.place
    s.node (.alias name) p
  else if c == '&' then do
    let (name, p) ← anchorName s.place
    s.node (.anchor name) p
  else if c == '!' then do
    let (handle, tail, p) ← Tag.at? s.inFlow s.place
    s.node (.tag handle tail) p
  else if c == '|' && !s.inFlow then s.block false
  else if c == '>' && !s.inFlow then s.block true
  else if c == '\'' then s.flowScalar false
  else if c == '"' then s.flowScalar true
  else if (!isIndicator c && !isBlank c && !isBreak c)
      || (c == '-' && !rest.head?.any isBlank)
      || (!s.inFlow && (c == '?' || c == ':') && !lone) then s.plainScalar
  else none

/-- Reads tokens to the end of the text. -/
def run : Nat → Scanner → Option (List Token)
  | 0, _ => none
  | steps + 1, s => do
    let s ← (skipBlanks (s.place.rest.length + 1) s).dropStale
    let s := s.closeBlocks s.place.column
    match s.place.rest with
    | [] => do
      let s ← (s.closeBlocks (-1)).dropCandidate
      return s.tokens.toList
    | c :: rest => do
      let s ← s.token c rest
      run steps s

end Scanner

namespace Token

/-- All tokens of a text; every one but the last takes at least a character. -/
def ofText? (text : String) : Option (List Token) := do
  let cs := text.toList
  guard (cs.all isAllowed)
  Scanner.run (cs.length + 2) (Scanner.start (Place.ofChars cs))

end Token

end Yaml

end RelAlg
