import RelAlg.CommandLine.Arguments
import RelAlg.Listing

/-!
# Running the program

What a run writes and how it ends, as a function of its arguments and of what it can read.

* `Sources`     : standard input and the files;
* `loadRelation`: the relation in a file or in standard input;
* `run`         : the outcome of a run.
-/

namespace RelAlg

/-! ## What a run reads -/

/-- Why a file or standard input gives no text. -/
inductive FileError where
  | missing
  | notText
  | other (reason : String)
deriving DecidableEq

namespace FileError

def message : FileError → String
  | missing => "No such file or directory (os error 2)"
  | notText => "stream did not contain valid UTF-8"
  | other reason => reason

end FileError

/-- Bytes that are at hand have been read. -/
instance : Coe ByteArray (Except FileError ByteArray) := ⟨.ok⟩

/-- What a run can read. -/
structure Sources where
  /-- The bytes of standard input up to its end. -/
  stdin : Except FileError ByteArray
  /-- The bytes of the file at a path. -/
  file : String → Except FileError ByteArray

/-- The text that is encoded by some bytes. -/
def textOfBytes (bytes : ByteArray) : Except FileError String :=
  match String.fromUTF8? bytes with
  | some s => .ok s
  | none => .error .notText

namespace Sources

/-- The text of a file. -/
def fileText (s : Sources) (path : String) : Except FileError String := s.file path >>= textOfBytes

/-- The text of standard input. -/
def inputText (s : Sources) : Except FileError String := s.stdin >>= textOfBytes

end Sources

/-! ## Loading a relation -/

/-- Why no relation could be loaded. -/
inductive LoadError where
  | inputUnread (cause : FileError)
  | fileUnread (path : String) (cause : FileError)
  | invalid (path : String) (cause : ParseError)
deriving DecidableEq

namespace LoadError

/-- What was being done. -/
def context : LoadError → String
  | inputUnread _ => "Failed to read relation tree from stdin"
  | fileUnread path _ => s!"Failed to read relation tree: {path}"
  | invalid path _ => s!"Invalid relation tree: {path}"

/-- What went wrong, as far as it can be told in words. -/
def cause? : LoadError → Option String
  | inputUnread cause | fileUnread _ cause => some cause.message
  | invalid _ (.json e) => e.message?
  | invalid _ .yaml => none
  | invalid _ (.arity e) => some e.message

end LoadError

/-- The parts of a path between slashes, without empty parts and single points. -/
def pathParts (path : String) : List (List Char) :=
  (path.toList.splitOnP (· == '/')).filter fun part => part != [] && part != ['.']

/-- What follows the last point in the last part of a path; a part whose only point is its first
character has no extension. -/
def extension? (path : String) : Option String :=
  match (pathParts path).getLast? with
  | none => none
  | some name =>
    if name == ['.', '.'] then none
    else
      let tail := (name.reverse.takeWhile (· != '.')).reverse
      let front := name.take (name.length - tail.length - 1)
      if tail.length < name.length && !front.isEmpty then some (String.ofList tail) else none

/-- The format in which a file is read: the one asked for, or YAML exactly for the extensions `yaml`
and `yml`, else JSON. -/
def resolveFormat (path : String) : InputFormat → InputFormat
  | .auto =>
    if extension? path == some "yaml" || extension? path == some "yml" then .yaml else .json
  | format => format

/-- The relation in a file, or in standard input if the path is `-`. -/
def loadRelation (s : Sources) (path : String) (format : InputFormat) :
    Except LoadError Relation := do
  let (text, format) ←
    if path = "-" then
      match s.inputText with
      | .ok text => pure (text, if format = .auto then InputFormat.json else format)
      | .error e => .error (LoadError.inputUnread e)
    else
      match s.fileText path with
      | .ok text => pure (text, resolveFormat path format)
      | .error e => .error (LoadError.fileUnread path e)
  match parseRelation format text with
  | .ok r => return r
  | .error e => .error (.invalid path e)

/-! ## Outcomes -/

structure Outcome where
  exit : Nat
  stdout : String
  stderr : String
deriving DecidableEq

/-- The name and version of the program. -/
def versionLine : String := "rx 0.1.2\n"

/-- How the program is used. -/
def usage : String :=
  "Usage: rx [-v] emit <PATH|-> [-i auto|json|yaml] [-o sexp|json] [--pretty]\n" ++
  "       rx [-v] kinds [-o table|json]\n"

namespace Outcome

/-- Lines for standard error. -/
def noted (notes : List String) : String := String.join (notes.map (· ++ "\n"))

/-- A run that succeeds. -/
def success (stdout : String) (notes : List String) : Outcome := ⟨0, stdout, noted notes⟩

/-- A run that fails after some notes. -/
def failure (notes : List String) (context : String) (cause : Option String) : Outcome :=
  let detail := match cause with
    | some c => "\n\nCaused by:\n    " ++ c
    | none => ""
  ⟨1, "", noted notes ++ "Error: " ++ context ++ detail ++ "\n"⟩

/-- A run whose arguments are not understood. -/
def ofArgumentError : ArgumentError → Outcome
  | .displayHelp => success usage []
  | .displayVersion => success versionLine []
  | _ => ⟨2, "", usage⟩

end Outcome

/-- Renders a tree. -/
def runEmit (s : Sources) (verbose : Bool) (o : EmitOptions) : Outcome :=
  match loadRelation s o.path o.input with
  | .error e => .failure [] e.context e.cause?
  | .ok r =>
    let notes := if verbose then
        [s!"[verbose] Loaded '{Vocabulary.word r.nodeKind}' tree from {o.path}"]
      else []
    match emit o.output o.isPretty r with
    | .error e => .failure notes "Failed to generate s-expression" (some e.message)
    | .ok text => .success (text ++ "\n") notes

/-- Lists the node kinds. -/
def runKinds (verbose : Bool) (output : ListingFormat) : Outcome :=
  let entries := Listing.entries .canonical
  let note := s!"[verbose] {Registry.canonical.length} of {entries.length} node kinds registered"
  let text := match output with
    | .table => Listing.table entries
    | .json => (Listing.toDocument entries).render true
  .success (text ++ "\n") (if verbose then [note] else [])

/-- The outcome of a run with the given arguments behind the name of the program. -/
def run (s : Sources) (args : List String) : Outcome :=
  match Invocation.parse args with
  | .error e => .ofArgumentError e
  | .ok ⟨verbose, .emit o⟩ => runEmit s verbose o
  | .ok ⟨verbose, .kinds output⟩ => runKinds verbose output

end RelAlg
