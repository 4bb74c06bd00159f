import TreeLens.CommandLine.Arguments
import TreeLens.Response
import TreeLens.Snippet
import TreeLens.SourceFile

/-!
# Running a command

What is printed on both channels and the exit status follow from the arguments and from
what can be read.
-/

namespace TreeLens.CommandLine

/-- What a run prints, and its exit status. -/
structure Outcome where
  status : Nat
  output : Text := []
  errors : Text := []
  deriving DecidableEq

/-- The name and version of the program. -/
def versionLine : Text := "explorer ".toList ++ version.toList ++ ['\n']

/-- An input error as it is reported. -/
def errorReport (e : InputError) : Text :=
  "Error: ".toList ++ e.message ++ ['\n']
    ++ match e.cause? with
      | none => []
      | some cause => "\nCaused by:\n    ".toList ++ cause ++ ['\n']

/-- The snippets of all diagnostics of a file. -/
def diagnosticReport (f : SourceFile) : Text :=
  f.parsed.diagnostics.flatMap fun d => d.snippet .styled f.path f.text ++ ['\n']

/-- What a command prints for a file. -/
def Command.present (c : Command) (f : SourceFile) : Outcome :=
  let response := ((f.tree c.parseOptions).response c.showOptions).toJson
  { status := 0
    output := (if c.pretty then response.pretty 0 else response.compact) ++ ['\n']
    errors := if c.diagnostics then diagnosticReport f else [] }

/-- Follow a command. -/
def Command.run (around : Surroundings) (c : Command) : Outcome :=
  match c.source.read around c.sizeLimit with
  | .ok text => c.present ⟨c.source.name, text⟩
  | .error e => { status := 1, errors := errorReport e }

/-- Answer a request. -/
def Request.run (around : Surroundings) : Request → Outcome
  | version => { status := 0, output := versionLine }
  | follow command => command.run around

/-- Run the program on some arguments. -/
def run (around : Surroundings) (arguments : List Text) : Outcome :=
  match Request.ofArguments arguments with
  | .ok request => request.run around
  | .error e => { status := 2, errors := "error: ".toList ++ e.message ++ ['\n'] }

end TreeLens.CommandLine
