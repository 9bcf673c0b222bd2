import RelAlg.Emit

/-!
# Command-line arguments

The program has two commands: `emit` renders a tree, `kinds` lists the node kinds.  Options may be
written `-o json`, `-ojson`, `-o=json`, `--output json` or `--output=json`, short flags may be
joined, and `--` ends the options.

* `Invocation`      : what the arguments ask for;
* `ArgumentError`   : why they ask for nothing;
* `Level`           : the options of the program and of each command;
* `Invocation.parse`: the arguments behind the name of the program.
-/

namespace RelAlg

/-! ## Invocations -/

/-- The two forms of the listing of kinds. -/
inductive ListingFormat where
  | table
  | json
deriving DecidableEq

instance : Vocabulary InputFormat where
  all := [.auto, .json, .yaml]
  word
    | .auto => "auto"
    | .json => "json"
    | .yaml => "yaml"

instance : Vocabulary OutputFormat where
  all := [.sexp, .json]
  word
    | .sexp => "sexp"
    | .json => "json"

instance : Vocabulary ListingFormat where
  all := [.table, .json]
  word
    | .table => "table"
    | .json => "json"

structure EmitOptions where
  /-- A file, or `-` for standard input. -/
  path : String
  input : InputFormat
  output : OutputFormat
  isPretty : Bool
deriving DecidableEq

inductive Command where
  | emit (options : EmitOptions)
  | kinds (output : ListingFormat)
deriving DecidableEq

structure Invocation where
  verbose : Bool
  command : Command
deriving DecidableEq

inductive ArgumentError where
  /-- Help was asked for. -/
  | displayHelp
  /-- The version was asked for. -/
  | displayVersion
  /-- There is no argument at all. -/
  | nothingGiven
  | missingCommand
  | unknownCommand
  | unknownArgument
  /-- An option lacks its value or has one that is not among its words. -/
  | invalidValue
  /-- A flag or an option is given twice. -/
  | repeated
  | missingPath
  /-- A flag has a value. -/
  | unwantedValue
deriving DecidableEq

/-! ## Options -/

/-- The flags and options of all levels. -/
inductive Switch where
  | help
  | version
  | verbose
  | input
  | output
  | pretty
deriving DecidableEq

namespace Switch

def short : Switch → Option Char
  | help => some 'h'
  | version => some 'V'
  | verbose => some 'v'
  | input => some 'i'
  | output => some 'o'
  | pretty => none

def long : Switch → String
  | help => "help"
  | version => "version"
  | verbose => "verbose"
  | input => "input-format"
  | output => "output"
  | pretty => "pretty"

def takesValue : Switch → Bool
  | input | output => true
  | _ => false

end Switch

/-- The program itself or one of its commands. -/
inductive Level where
  | program
  | emit
  | kinds
deriving DecidableEq

namespace Level

def switches : Level → List Switch
  | program => [.help, .version, .verbose]
  | emit => [.help, .verbose, .input, .output, .pretty]
  | kinds => [.help, .verbose, .output]

/-- The words that an option takes as its value. -/
def accepts (l : Level) (s : Switch) (value : String) : Bool :=
  match l, s with
  | emit, .input => (Vocabulary.words InputFormat).contains value
  | emit, .output => (Vocabulary.words OutputFormat).contains value
  | kinds, .output => (Vocabulary.words ListingFormat).contains value
  | _, _ => true

/-- The words that stand for a command. -/
def commands : Level → List String
  | program => ["emit", "kinds", "help"]
  | _ => []

end Level

/-! ## Reading one level -/

/-- What has been read of the arguments of a level. -/
structure Given where
  /-- The switches given, with their values; a flag has an empty one. -/
  chosen : List (Switch × String)
  /-- An option that is not settled yet, with its value if there is one. -/
  pending : Option (Switch × Option String)
  path : Option String
  /-- Only plain arguments follow. -/
  isEnded : Bool

namespace Given

def nothing : Given := ⟨[], none, none, false⟩

/-- A switch with its value. -/
def choose (g : Given) (l : Level) (s : Switch) (value : String) : Except ArgumentError Given :=
  if g.chosen.any (·.1 == s) then .error .repeated
  else if l.accepts s value then .ok { g with chosen := (s, value) :: g.chosen }
  else .error .invalidValue

/-- Settles the pending option. -/
def settle (g : Given) (l : Level) : Except ArgumentError Given :=
  match g.pending with
  | none => .ok g
  | some (_, none) => .error .invalidValue
  | some (s, some value) => choose { g with pending := none } l s value

/-- A flag. -/
def flag (g : Given) (l : Level) (s : Switch) : Except ArgumentError Given := do
  let g ← g.settle l
  match s with
  | .help => .error .displayHelp
  | .version => .error .displayVersion
  | s => g.choose l s ""

/-- An option with its value, or one that waits for it. -/
def option (g : Given) (l : Level) (s : Switch) (value : Option String) :
    Except ArgumentError Given := do
  let g ← g.settle l
  match value with
  | some value => g.choose l s value
  | none => return { g with pending := some (s, none) }

/-- An argument that starts with two hyphens. -/
def longArgument (g : Given) (l : Level) (cs : List Char) : Except ArgumentError Given :=
  let name := String.ofList (cs.takeWhile (· != '='))
  let value : Option String := match cs.dropWhile (· != '=') with
    | _ :: rest => some (String.ofList rest)
    | [] => none
  match l.switches.find? fun s => s.long == name with
  | none => .error .unknownArgument
  | some s =>
    if s.takesValue then g.option l s value
    else if value.isSome then .error .unwantedValue
    else g.flag l s

/-- The letters of an argument that starts with one hyphen. -/
def shortArgument (g : Given) (l : Level) : List Char → Except ArgumentError Given
  | [] => .ok g
  | c :: rest =>
    match l.switches.find? fun s => s.short == some c with
    | none => .error .unknownArgument
    | some s =>
      if s.takesValue then
        g.option l s (match rest with
          | [] => none
          | '=' :: value => some (String.ofList value)
          | value => some (String.ofList value))
      else do
        let g ← g.flag l s
        g.shortArgument l rest

/-- An argument that is neither a switch nor the value of one. -/
def plainArgument (g : Given) (l : Level) (a : String) : Except ArgumentError Given :=
  match l, g.path with
  | .emit, none => do
    let g ← g.settle l
    return { g with path := some a }
  | .program, _ =>
    if g.isEnded && l.commands.contains a then .error .unknownArgument else .error .unknownCommand
  | _, _ => .error .unknownArgument

/-- One argument. -/
def argument (g : Given) (l : Level) (a : String) : Except ArgumentError Given :=
  if g.isEnded then g.plainArgument l a
  else
    match a.toList with
    | ['-', '-'] => .ok { g with isEnded := true }
    | '-' :: '-' :: cs => g.longArgument l cs
    | '-' :: c :: cs => g.shortArgument l (c :: cs)
    | _ =>
      match g.pending with
      | some (s, none) => .ok { g with pending := some (s, some a) }
      | _ => g.plainArgument l a

/-- All arguments of a level, up to the first that names a command, and the command with
what follows it. -/
def arguments (g : Given) (l : Level) : List String → Except ArgumentError (Given × List String)
  | [] => do
    let g ← g.settle l
    return (g, [])
  | a :: rest =>
    if !g.isEnded && l.commands.contains a then .ok (g, a :: rest)
    else do
      let g ← g.argument l a
      g.arguments l rest

def has (g : Given) (s : Switch) : Bool := g.chosen.any (·.1 == s)

/-- The element that the value of an option names. -/
def value {α : Type} [Vocabulary α] (g : Given) (s : Switch) (fallback : α) : α :=
  match g.chosen.lookup s with
  | some w => (Vocabulary.find? w).getD fallback
  | none => fallback

end Given

/-! ## Reading all arguments -/

namespace Invocation

def parseEmit (verbose : Bool) (args : List String) : Except ArgumentError Invocation := do
  let (g, _) ← Given.nothing.arguments .emit args
  match g.path with
  | none => .error .missingPath
  | some path =>
    return ⟨verbose || g.has .verbose,
      .emit ⟨path, g.value .input .auto, g.value .output .sexp, g.has .pretty⟩⟩

def parseKinds (verbose : Bool) (args : List String) : Except ArgumentError Invocation := do
  let (g, _) ← Given.nothing.arguments .kinds args
  return ⟨verbose || g.has .verbose, .kinds (g.value .output .table)⟩

/-- What `help` is about: the program or one command. -/
def parseHelp : List String → ArgumentError
  | [] => .displayHelp
  | [a] => if Level.program.commands.contains a then .displayHelp else .unknownCommand
  | _ => .unknownCommand

/-- The arguments behind the name of the program. -/
def parse (args : List String) : Except ArgumentError Invocation := do
  let (g, rest) ← Given.nothing.arguments .program args
  match rest with
  | "emit" :: rest => parseEmit (g.has .verbose) rest
  | "kinds" :: rest => parseKinds (g.has .verbose) rest
  | _ :: rest => .error (parseHelp rest)
  | [] => if g.chosen.isEmpty then .error .nothingGiven else .error .missingCommand

end Invocation

end RelAlg
