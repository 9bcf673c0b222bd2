import RelAlg.Numeral
import RelAlg.Yaml.Place

/-!
# The text of YAML scalars

Plain, quoted and block scalars, each up to the place behind it.

* `Yaml.plain`      : a plain scalar, in block or flow context;
* `Yaml.quoted`     : a scalar in single or double quotes;
* `Yaml.blockScalar`: a literal or folded block.
-/

namespace RelAlg

namespace Yaml

/-! ## Plain scalars -/

/-- The characters that separate the parts of a flow collection. -/
def isFlowIndicator (c : Char) : Bool := [',', '[', ']', '{', '}'].contains c

/-- The characters of a plain scalar up to a blank, a line break or an indicator that ends it.  In
flow context a colon right before another indicator is refused. -/
def plainRun (flow : Bool) : List Char → Option (List Char)
  | [] => some []
  | c :: rest =>
    if isBlank c || isBreak c then some []
    else if flow && c == ':' && rest.head?.any fun d => isFlowIndicator d || d == '?' then none
    else if c == ':' && endsWord rest then some []
    else if flow && isFlowIndicator c then some []
    else (plainRun flow rest).map (c :: ·)

/-- A scalar that has been read, the place behind it, and whether a line break came last. -/
structure Scanned where
  text : List Char
  place : Place
  broken : Bool

/-- A plain scalar from one of its words on, where `text` and `gap` stand before the word. -/
def plainFrom (flow : Bool) (indent : Nat) : Nat → Place → List Char → Gap → Option Scanned
  | 0, _, _, _ => none
  | steps + 1, p, text, gap =>
    if p.isDocumentMark || p.startsWith '#' then some ⟨text, p, !gap.breaks.isEmpty⟩
    else do
      let run ← plainRun flow p.rest
      let (text, gap) := if run.isEmpty then (text, gap) else (text ++ gap.text ++ run, Gap.none)
      let p := p.advance run.length
      if endsWord p.rest && !p.rest.isEmpty then
        let (gap, q) ← Gap.at? (some indent) false p
        if !flow && q.column < indent then some ⟨text, q, !gap.breaks.isEmpty⟩
        else plainFrom flow indent steps q text gap
      else some ⟨text, p, !gap.breaks.isEmpty⟩

/-- A plain scalar; in block context its lines start at column `indent` or later. -/
def plain (flow : Bool) (indent : Nat) (p : Place) : Option Scanned :=
  plainFrom flow indent (p.rest.length + 1) p [] Gap.none

/-! ## Quoted scalars -/

/-- The character of a one-letter escape. -/
def shortEscape? : Char → Option Char
  | '0' => some '\x00'
  | 'a' => some '\x07'
  | 'b' => some '\x08'
  | 't' | '\t' => some '\t'
  | 'n' => some '\n'
  | 'v' => some '\x0b'
  | 'f' => some '\x0c'
  | 'r' => some '\r'
  | 'e' => some '\x1b'
  | ' ' => some ' '
  | '"' => some '"'
  | '/' => some '/'
  | '\\' => some '\\'
  | 'N' => some '\u0085'
  | '_' => some '\u00a0'
  | 'L' => some '\u2028'
  | 'P' => some '\u2029'
  | _ => none

/-- The number of hexadecimal digits behind an escape letter. -/
def escapeWidth? : Char → Option Nat
  | 'x' => some 2
  | 'u' => some 4
  | 'U' => some 8
  | _ => none

/-- The character with a code point, unless it is half of a surrogate pair or too large. -/
def charOfCode? (n : Nat) : Option Char :=
  if h : n.isValidChar then some (Char.ofNatAux n h) else none

/-- The escape behind a backslash: its character and its length. -/
def escape? : List Char → Option (Char × Nat)
  | [] => none
  | e :: rest =>
    match escapeWidth? e with
    | some width => do
      let digits := rest.take width
      guard (digits.length == width)
      let n ← Numeral.valueInBase? 16 digits
      let c ← charOfCode? n
      return (c, width + 1)
    | none => (shortEscape? e).map (·, 1)

/-- The characters of a quoted scalar up to a blank, a line break or its end.  The flag tells that a
backslash has broken the line. -/
def quotedRun (double : Bool) : Nat → Place → List Char → Option (List Char × Place × Bool)
  | 0, p, text => some (text, p, false)
  | steps + 1, p, text =>
    match p.rest with
    | [] => some (text, p, false)
    | c :: rest =>
      if isBlank c || isBreak c then some (text, p, false)
      else if double then
        if c == '"' then some (text, p, false)
        else if c == '\\' then
          match (p.advance 1).lineBreak? with
          | some (_, q) => some (text, q, true)
          | none => do
            let (c, length) ← escape? rest
            quotedRun double steps (p.advance (length + 1)) (text ++ [c])
        else quotedRun double steps (p.advance 1) (text ++ [c])
      else if c == '\'' then
        if rest.head? == some '\'' then quotedRun double steps (p.advance 2) (text ++ ['\''])
        else some (text, p, false)
      else quotedRun double steps (p.advance 1) (text ++ [c])

/-- A quoted scalar from one of its words on. -/
def quotedFrom (double : Bool) : Nat → Place → List Char → Option (List Char × Place)
  | 0, _, _ => none
  | steps + 1, p, text =>
    if p.isDocumentMark || p.rest.isEmpty then none
    else do
      let (text, p, broken) ← quotedRun double p.rest.length p text
      if p.startsWith (if double then '"' else '\'') then return (text, p.advance 1)
      else
        let (gap, q) ← Gap.at? none broken p
        quotedFrom double steps q (text ++ if broken then gap.breaks else gap.text)

/-- A quoted scalar, from its opening quote on. -/
def quoted (double : Bool) (p : Place) : Option (List Char × Place) :=
  quotedFrom double (p.rest.length + 1) (p.advance 1) []

/-! ## Block scalars -/

/-- What becomes of the line breaks at the end of a block. -/
inductive Chomping where
  | strip
  | clip
  | keep
deriving DecidableEq

/-- The indicators behind the bar or angle: chomping and a step of indentation, in either order. -/
def blockIndicators (p : Place) : Option (Chomping × Option Nat × Place) :=
  let chomping? : Place → Option (Chomping × Place) := fun p =>
    if p.startsWith '+' then some (.keep, p.advance 1)
    else if p.startsWith '-' then some (.strip, p.advance 1)
    else none
  let step? : Place → Option (Option Nat × Place) := fun p =>
    match p.rest with
    | '0' :: _ => none
    | c :: _ => if c.isDigit then some (some (c.toNat - 48), p.advance 1) else some (none, p)
    | [] => some (none, p)
  match chomping? p with
  | some (chomping, p) => do
    let (step, p) ← step? p
    return (chomping, step, p)
  | none => do
    let (step, p) ← step? p
    match step, chomping? p with
    | some n, some (chomping, p) => return (chomping, some n, p)
    | step, _ => return (.clip, step, p)

/-- The empty lines at a place: their breaks, the place behind them and the greatest column seen.
Without a known `indent` all blanks in front of a line are passed. -/
def emptyLines (indent : Option Nat) :
    Nat → Place → List Char → Nat → Option (List Char × Place × Nat)
  | 0, p, breaks, widest => some (breaks, p, widest)
  | steps + 1, p, breaks, widest =>
    let blanks := (p.rest.takeWhile (· == ' ')).length
    let p := p.advance (match indent with
      | some n => min blanks (n - p.column)
      | none => blanks)
    let widest := max widest p.column
    if p.startsWith '\t' && indent.all (p.column < ·) then none
    else
      match p.lineBreak? with
      | some (c, q) => emptyLines indent steps q (breaks ++ [c]) widest
      | none => some (breaks, p, widest)

/-- The lines of a block at column `indent`.  `leading` is the break that ended the line before,
`trailing` the breaks of the empty lines since, and `wasBlank` tells that the line before started
with a blank. -/
def blockLines (folded : Bool) (indent : Nat) :
    Nat → Place → List Char → List Char → List Char → Bool →
      Option (List Char × List Char × List Char × Place)
  | 0, p, text, leading, trailing, _ => some (text, leading, trailing, p)
  | steps + 1, p, text, leading, trailing, wasBlank =>
    if p.column == indent && !p.rest.isEmpty then do
      let isBlankLine := p.rest.head?.any isBlank
      let joint :=
        if folded && leading == ['\n'] && !wasBlank && !isBlankLine then
          if trailing.isEmpty then [' '] else []
        else leading
      let (run, p) := p.span fun c => !isBreak c
      let (leading, p) := match p.lineBreak? with
        | some (c, q) => ([c], q)
        | none => ([], p)
      let (trailing', p, _) ← emptyLines (some indent) (p.rest.length + 1) p [] 0
      blockLines folded indent steps p (text ++ joint ++ trailing ++ run) leading trailing'
        isBlankLine
    else some (text, leading, trailing, p)

/-- A block scalar, from its indicator on, inside a block whose entries stand at column `parent`. -/
def blockScalar (folded : Bool) (parent : Int) (p : Place) : Option (List Char × Place) := do
  let (chomping, step, p) ← blockIndicators (p.advance 1)
  let (_, p) := p.span isBlank
  let p := if p.startsWith '#' then (p.span fun c => !isBreak c).2 else p
  let p ← if p.rest.isEmpty then some p else p.lineBreak?.map (·.2)
  let known := step.map fun n => (if 0 ≤ parent then parent.toNat + n else n)
  let (trailing, p, widest) ← emptyLines known (p.rest.length + 1) p [] 0
  let indent := known.getD (max widest (max (parent + 1).toNat 1))
  let (text, leading, trailing, p) ←
    blockLines folded indent (p.rest.length + 1) p [] [] trailing false
  let tail := match chomping with
    | .strip => []
    | .clip => leading
    | .keep => leading ++ trailing
  return (text ++ tail, p)

end Yaml

end RelAlg
