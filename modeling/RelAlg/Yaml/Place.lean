/-!
# Places in a YAML text

A YAML text is read with an eye on columns and lines.  A `Place` is the rest of the text
with its position.

* `Place.advance`, `Place.span`: moving on within a line;
* `Gap`                        : a run of blanks and line breaks between two words;
* `Gap.text`                   : what the run stands for when the lines are folded.
-/

namespace RelAlg

namespace Yaml

/-! ## Classes of characters -/

def isBreak (c : Char) : Bool :=
  c == '\n' || c == '\r' || c == '\u0085' || c == '\u2028' || c == '\u2029'

def isBlank (c : Char) : Bool := c == ' ' || c == '\t'

/-- Letters, digits, hyphen and underscore, of which anchors and tag handles are made. -/
def isWordChar (c : Char) : Bool := c.isAlphanum || c == '-' || c == '_'

/-- The rest of a text starts with a blank or a line break, or is empty. -/
def endsWord : List Char → Bool
  | [] => true
  | c :: _ => isBlank c || isBreak c

/-- The characters a YAML text may hold. -/
def isAllowed (c : Char) : Bool :=
  let n := c.toNat
  n == 0x09 || n == 0x0A || n == 0x0D || (0x20 ≤ n && n ≤ 0x7E) || n == 0x85
    || (0xA0 ≤ n && n ≤ 0xD7FF) || (0xE000 ≤ n && n ≤ 0xFFFD) || 0x10000 ≤ n

/-! ## Places -/

structure Place where
  rest : List Char
  /-- The octets before this place, as the text is stored in UTF-8. -/
  octet : Nat
  line : Nat
  column : Nat

namespace Place

def ofChars (cs : List Char) : Place := ⟨cs, 0, 0, 0⟩

/-- The number of octets that some characters take. -/
def octets (cs : List Char) : Nat := cs.foldl (fun n c => n + c.utf8Size) 0

/-- The place `n` characters later on the same line. -/
def advance (p : Place) (n : Nat) : Place :=
  { p with
    rest := p.rest.drop n
    octet := p.octet + octets (p.rest.take n)
    column := p.column + n }

/-- The longest run of characters with a property, and the place behind it. -/
def span (p : Place) (holds : Char → Bool) : List Char × Place :=
  let run := p.rest.takeWhile holds
  (run, p.advance run.length)

/-- The next character is `c`. -/
def startsWith (p : Place) (c : Char) : Bool := p.rest.head? == some c

/-- The place behind a line break, and the break as one character: a line feed, unless it is a line
or paragraph separator. -/
def lineBreak? (p : Place) : Option (Char × Place) :=
  let next (n : Nat) : Place :=
    { rest := p.rest.drop n
      octet := p.octet + octets (p.rest.take n)
      line := p.line + 1
      column := 0 }
  match p.rest with
  | '\r' :: '\n' :: _ => some ('\n', next 2)
  | '\u2028' :: _ => some ('\u2028', next 1)
  | '\u2029' :: _ => some ('\u2029', next 1)
  | c :: _ => if isBreak c then some ('\n', next 1) else none
  | [] => none

/-- The text from here on starts with three times `c` and then a word ends. -/
def marks (p : Place) (c : Char) : Bool :=
  match p.rest with
  | a :: b :: d :: rest => a == c && b == c && d == c && endsWord rest
  | _ => false

/-- A line that starts or ends a document. -/
def isDocumentMark (p : Place) : Bool := p.column == 0 && (p.marks '-' || p.marks '.')

end Place

/-! ## Gaps between words -/

/-- A run of blanks and line breaks. -/
structure Gap where
  /-- The blanks, if the run does not break the line. -/
  blanks : List Char
  /-- The line breaks, in order. -/
  breaks : List Char

namespace Gap

def none : Gap := ⟨[], []⟩

/-- The folded text: a single line feed is a blank, and of several the first is dropped. -/
def text (g : Gap) : List Char :=
  match g.breaks with
  | [] => g.blanks
  | ['\n'] => [' ']
  | '\n' :: more => more
  | all => all

/-- The gap at a place and the place behind it.  Where `indent` is given, a tab before that column
of a new line is refused.  `broken` tells that the line was broken by an escape before, so blanks
do not count. -/
def scan (indent : Option Nat) (broken : Bool) : Nat → Place → Gap → Option (Gap × Place)
  | 0, p, g => some (g, p)
  | steps + 1, p, g =>
    match p.lineBreak? with
    | some (c, q) => scan indent broken steps q ⟨[], g.breaks ++ [c]⟩
    | .none =>
      match p.rest with
      | c :: _ =>
        if isBlank c then
          if broken || !g.breaks.isEmpty then
            if c == '\t' && indent.any (p.column < ·) then .none
            else scan indent broken steps (p.advance 1) g
          else scan indent broken steps (p.advance 1) ⟨g.blanks ++ [c], g.breaks⟩
        else some (g, p)
      | [] => some (g, p)

/-- The gap at a place and the place behind it. -/
def at? (indent : Option Nat) (broken : Bool) (p : Place) : Option (Gap × Place) :=
  scan indent broken p.rest.length p none

end Gap

end Yaml

end RelAlg
