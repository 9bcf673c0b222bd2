import RelAlg.CommandLine.Run

/-!
# The program

The thin layer around `run`: it reads what a run may need, writes the outcome and sets
the exit status.
-/

namespace RelAlg

/-- What comes of reading bytes. -/
def attempt (read : IO ByteArray) : IO (Except FileError ByteArray) := do
  try
    return .ok (← read)
  catch
    | .noFileOrDirectory .. => return .error .missing
    | e => return .error (.other (toString e))

/-- All bytes of a stream; a read without bytes is its end. -/
partial def readAll (stream : IO.FS.Stream) (read : ByteArray) : IO ByteArray := do
  let chunk ← stream.read 65536
  if chunk.isEmpty then return read else readAll stream (read ++ chunk)

/-- What a run with these arguments may read: the one file or the input that they name. -/
def gatherSources (args : List String) : IO Sources := do
  match Invocation.parse args with
  | .ok ⟨_, .emit o⟩ =>
    if o.path = "-" then
      let bytes ← attempt (readAll (← IO.getStdin) .empty)
      return ⟨bytes, fun _ => .error .missing⟩
    else
      let bytes ← attempt (IO.FS.readBinFile o.path)
      return ⟨ByteArray.empty, fun _ => bytes⟩
  | _ => return ⟨ByteArray.empty, fun _ => .error .missing⟩

end RelAlg

open RelAlg in
/-- Runs the program on its arguments. -/
def main (args : List String) : IO UInt32 := do
  let sources ← gatherSources args
  let outcome := run sources args
  IO.eprint outcome.stderr
  IO.print outcome.stdout
  return UInt32.ofNat outcome.exit
