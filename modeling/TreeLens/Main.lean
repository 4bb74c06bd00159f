import TreeLens.CommandLine.Run

/-!
# The program

Reads what the arguments ask for, runs the command and prints its outcome.
-/

open TreeLens TreeLens.CommandLine

/-- The answer of the file system, or why there is none. -/
def askFor {α : Type} (answer : IO α) : IO (Except ReadFailure α) := do
  try
    return .ok (← answer)
  catch
    | .noFileOrDirectory _ _ _ => return .error .notFound
    | e => return .error (.other (toString e).toList)

/-- The size of a file in bytes. -/
def sizeOfFile (path : Text) : IO Nat := do
  return (← (System.mkFilePath [String.ofList path]).metadata).byteSize.toNat

/-- Read from a stream until it ends or enough bytes are there. -/
partial def readAtLeast (stream : IO.FS.Stream) (wanted : Nat) (bytes : ByteArray) :
    IO ByteArray := do
  if bytes.size ≥ wanted then return bytes
  let more ← stream.read 4096
  if more.isEmpty then return bytes
  readAtLeast stream wanted (bytes ++ more)

/-- Surroundings in which there is nothing to read. -/
def nothing : Surroundings := { file := fun _ => .error .notFound, standardInput := .empty }

/-- What a command can read. -/
def surroundings (command : Command) : IO Surroundings := do
  match command.source with
  | .inline _ => return nothing
  | .file path =>
    let size ← askFor (sizeOfFile path)
    let contents ← askFor (IO.FS.readBinFile (String.ofList path))
    return { nothing with file := fun _ => contents, fileSize := fun _ => size }
  | .standardInput =>
    let contents ← readAtLeast (← IO.getStdin) (command.sizeLimit + 1) .empty
    return { nothing with standardInput := contents }

def main (arguments : List String) : IO UInt32 := do
  let arguments := arguments.map String.toList
  let around ←
    match Request.ofArguments arguments with
    | .ok (.follow command) => surroundings command
    | _ => pure nothing
  let outcome := run around arguments
  (← IO.getStdout).putStr (String.ofList outcome.output)
  (← IO.getStderr).putStr (String.ofList outcome.errors)
  return outcome.status.toUInt32
