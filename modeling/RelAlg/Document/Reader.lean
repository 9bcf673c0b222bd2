import RelAlg.Binary64.Scaling
import RelAlg.Document.Basic
import RelAlg.Numeral

/-!
# Reading JSON texts

A text is read as far as it is JSON.  Where it stops, the tree read so far ends in
`Document.broken`, which keeps the place of the fault among the values, so that a decoder meets it
in the order of the text.

* `Scan.string`, `Scan.number`: the two lexical forms with a grammar of their own;
* `Scan.value`                : a value and what follows it;
* `Source.ofText`             : a whole text, with a note whether anything follows its value.
-/

namespace RelAlg

/-- A text as far as it could be read. -/
structure Source where
  document : Document
  /-- Only blanks follow the document. -/
  complete : Bool

namespace Scan

/-- The text without the blanks at its front: space, tab, line feed, carriage return. -/
def skipBlanks (cs : List Char) : List Char :=
  cs.dropWhile fun c => c == ' ' || c == '\t' || c == '\n' || c == '\r'

/-! ## Strings -/

/-- A character of a string as it is written: itself, or a 16-bit unit from an escape. -/
inductive Piece where
  | char (c : Char)
  | unit (n : Nat)
deriving DecidableEq

/-- The character of a one-letter escape. -/
def shortEscape? : Char → Option Char
  | '"' => some '"'
  | '\\' => some '\\'
  | '/' => some '/'
  | 'b' => some '\x08'
  | 'f' => some '\x0c'
  | 'n' => some '\n'
  | 'r' => some '\r'
  | 't' => some '\t'
  | _ => none

/-- The 16-bit unit with the given four hexadecimal digits. -/
def unit? (a b c d : Char) : Option Nat := do
  let a ← Numeral.hexDigit? a
  let b ← Numeral.hexDigit? b
  let c ← Numeral.hexDigit? c
  let d ← Numeral.hexDigit? d
  return ((a * 16 + b) * 16 + c) * 16 + d

/-- The pieces up to the closing quote, and what follows it. -/
def pieces : List Char → Option (List Piece × List Char)
  | [] => none
  | '"' :: rest => some ([], rest)
  | '\\' :: 'u' :: a :: b :: c :: d :: rest => do
    let n ← unit? a b c d
    let (ps, rest) ← pieces rest
    return (.unit n :: ps, rest)
  | '\\' :: e :: rest => do
    let c ← shortEscape? e
    let (ps, rest) ← pieces rest
    return (.char c :: ps, rest)
  | c :: rest =>
    if c.toNat < 32 then none
    else do
      let (ps, rest) ← pieces rest
      return (.char c :: ps, rest)

/-- First half of a surrogate pair. -/
def isHigh (n : Nat) : Bool := 0xD800 ≤ n && n ≤ 0xDBFF

/-- Second half of a surrogate pair. -/
def isLow (n : Nat) : Bool := 0xDC00 ≤ n && n ≤ 0xDFFF

/-- The characters that the pieces stand for, `none` if half of a surrogate pair stands alone. -/
def joined : List Piece → Option (List Char)
  | [] => some []
  | .char c :: rest => (joined rest).map (c :: ·)
  | .unit n :: rest =>
    if isHigh n then
      match rest with
      | .unit m :: rest =>
        if isLow m then
          (joined rest).map (Char.ofNat (0x10000 + (n - 0xD800) * 0x400 + (m - 0xDC00)) :: ·)
        else none
      | _ => none
    else if isLow n then none
    else (joined rest).map (Char.ofNat n :: ·)

/-- A string after its opening quote, with what follows it: `none` if the text breaks off, a string
that is `none` if it cannot be represented. -/
def string (cs : List Char) : Option (Option String × List Char) :=
  (pieces cs).map fun (ps, rest) => ((joined ps).map String.ofList, rest)

/-! ## Numbers -/

/-- The whole part of a number: no superfluous zero in front. -/
def isWhole : List Char → Bool
  | [] => false
  | ['0'] => true
  | '0' :: _ => false
  | _ => true

/-- Takes digits behind the significand `n` for as long as it has no more than 64 bits: the
significand, and the digits from the first one on that does not fit. -/
def takeDigits (n : Nat) : List Char → Nat × List Char
  | [] => (n, [])
  | c :: rest =>
    let m := 10 * n + Numeral.digitValue c
    if m < 0x10000000000000000 then takeDigits m rest else (n, c :: rest)

/-- The float ± n · 10 ^ e, which cannot be represented if it is too large. -/
def scaledNumber (negative : Bool) (n : Nat) (e : Int) : Document :=
  match Binary64.ofScaled? negative n e with
  | some x => .float x
  | none => .unreadable

/-- The value of a number without fraction and exponent.  A whole number outside the two integer
ranges is a float, and so is -0; of digits beyond 64 bits only the number counts. -/
def wholeNumber (negative : Bool) (whole : List Char) : Document :=
  match takeDigits 0 whole with
  | (n, []) =>
    if !negative then .integer n
    else if 0 < n ∧ n ≤ 0x8000000000000000 then .integer (-n)
    else .float (Binary64.ofRatio true n 1)
  | (n, dropped) => scaledNumber negative n dropped.length

/-- The value of a number with a fraction or an exponent.  Whole digits beyond 64 bits scale the
number, digits of the fraction beyond that are ignored. -/
def fractionalNumber (negative : Bool) (whole fraction : List Char) (exponent : Int) : Document :=
  let (n, dropped) := takeDigits 0 whole
  let (n, ignored) := takeDigits n fraction
  scaledNumber negative n (exponent + dropped.length + ignored.length - fraction.length)

/-- The exponent of a number, if there is one, and what follows; `none` if it has no digits. -/
def exponent (cs : List Char) : Option (Option Int × List Char) :=
  match cs with
  | e :: rest =>
    if e == 'e' || e == 'E' then
      let (negative, rest) := match rest with
        | '-' :: rest => (true, rest)
        | '+' :: rest => (false, rest)
        | rest => (false, rest)
      let digits := rest.takeWhile Char.isDigit
      let n : Int := Numeral.value digits
      if digits.isEmpty then none
      else some (some (if negative then -n else n), rest.dropWhile Char.isDigit)
    else some (none, cs)
  | [] => some (none, [])

/-- Whether a point comes first, and what follows it. -/
def pointed : List Char → Bool × List Char
  | '.' :: rest => (true, rest)
  | rest => (false, rest)

/-- A number behind its sign, and what follows it. -/
def magnitude (negative : Bool) (cs : List Char) : Option (Document × List Char) := do
  let whole := cs.takeWhile Char.isDigit
  guard (isWhole whole)
  let (hasPoint, tail) := pointed (cs.dropWhile Char.isDigit)
  let fraction := if hasPoint then tail.takeWhile Char.isDigit else []
  guard (!hasPoint || !fraction.isEmpty)
  let (e?, rest) ← exponent (if hasPoint then tail.dropWhile Char.isDigit else tail)
  match hasPoint, e? with
  | false, none => return (wholeNumber negative whole, rest)
  | _, e? => return (fractionalNumber negative whole fraction (e?.getD 0), rest)

/-- A number and what follows it. -/
def number : List Char → Option (Document × List Char)
  | '-' :: rest => magnitude true rest
  | rest => magnitude false rest

/-! ## Values -/

/-- A constant, written as `word`. -/
def constant (word : List Char) (d : Document) (cs : List Char) : Document × Option (List Char) :=
  if word.isPrefixOf cs then (d, some (cs.drop word.length)) else (.broken, none)

mutual

/-- A value and what follows it; nothing follows a value that is broken.  The first argument bounds
the steps and is chosen large enough by `Source.ofText`. -/
def value : Nat → List Char → Document × Option (List Char)
  | 0, _ => (.broken, none)
  | steps + 1, cs =>
    match skipBlanks cs with
    | '[' :: rest =>
      match skipBlanks rest with
      | ']' :: rest => (.array [], some rest)
      | rest =>
        let (items, rest) := items steps rest
        (.array items, rest)
    | '{' :: rest =>
      match skipBlanks rest with
      | '}' :: rest => (.object [], some rest)
      | rest =>
        let (members, rest) := members steps rest
        (.object members, rest)
    | '"' :: rest =>
      match string rest with
      | some (some s, rest) => (.string s, some rest)
      | some (none, rest) => (.unreadable, some rest)
      | none => (.broken, none)
    | 'n' :: rest => constant ['n', 'u', 'l', 'l'] .null ('n' :: rest)
    | 't' :: rest => constant ['t', 'r', 'u', 'e'] (.boolean true) ('t' :: rest)
    | 'f' :: rest => constant ['f', 'a', 'l', 's', 'e'] (.boolean false) ('f' :: rest)
    | rest =>
      match number rest with
      | some (d, rest) => (d, some rest)
      | none => (.broken, none)

/-- The items of an array from the first one on, up to the bracket that closes it. -/
def items : Nat → List Char → List Document × Option (List Char)
  | 0, _ => ([.broken], none)
  | steps + 1, cs =>
    match value steps cs with
    | (d, none) => ([d], none)
    | (d, some rest) =>
      match skipBlanks rest with
      | ',' :: rest =>
        let (ds, rest) := items steps rest
        (d :: ds, rest)
      | ']' :: rest => ([d], some rest)
      | _ => ([d, .broken], none)

/-- The members of an object from the first name on, up to the brace that closes it. -/
def members : Nat → List Char → List (Key × Document) × Option (List Char)
  | 0, _ => ([(.unreadable, .broken)], none)
  | steps + 1, cs =>
    match skipBlanks cs with
    | '"' :: rest =>
      match string rest with
      | none => ([(.unreadable, .broken)], none)
      | some (name?, rest) =>
        let key : Key := match name? with
          | some name => .text name
          | none => .unreadable
        match skipBlanks rest with
        | ':' :: rest =>
          match value steps rest with
          | (d, none) => ([(key, d)], none)
          | (d, some rest) =>
            match skipBlanks rest with
            | ',' :: rest =>
              let (ms, rest) := members steps rest
              ((key, d) :: ms, rest)
            | '}' :: rest => ([(key, d)], some rest)
            | _ => ([(key, d), (.unreadable, .broken)], none)
        | _ => ([(key, .broken)], none)
    | _ => ([(.unreadable, .broken)], none)

end

end Scan

namespace Source

/-- The document at the start of a text.  Every step of the reader takes a character or turns to the
parts of a value that has taken one, so twice the length of the text is enough steps. -/
def ofText (text : String) : Source :=
  let cs := text.toList
  match Scan.value (2 * cs.length + 2) cs with
  | (d, some rest) => ⟨d, (Scan.skipBlanks rest).isEmpty⟩
  | (d, none) => ⟨d, false⟩

end Source

end RelAlg
