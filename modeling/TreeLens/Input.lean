import TreeLens.Text.Basic

/-!
# Input

A source text is given in place, in a file or on standard input, and must not be longer
than a limit. A file is asked for its size before it is read, and either can fail. Standard
input is read only as far as one byte beyond the limit, and what was read has to be UTF-8 by
itself.
-/

namespace TreeLens

/-- Where a source text comes from. -/
inductive Source where
  | inline (text : Text)
  | file (path : Text)
  | standardInput
  deriving DecidableEq

/-- The name under which a source is reported. -/
def Source.name : Source → Text
  | .inline _ => "<code>".toList
  | .file path => path
  | .standardInput => "<stdin>".toList

/-- Why bytes cannot be had, or are no text. -/
inductive ReadFailure where
  | notFound
  | notText
  | other (message : Text)
  deriving DecidableEq

/-- The wording of a failure. -/
def ReadFailure.message : ReadFailure → Text
  | .notFound => "No such file or directory (os error 2)".toList
  | .notText => "stream did not contain valid UTF-8".toList
  | .other message => message

/-- Why a source text cannot be had. -/
inductive InputError where
  | tooLarge (length limit : Nat)
  | unreadable (name : Text) (cause : ReadFailure)
  deriving DecidableEq

namespace InputError

/-- The wording of an error, without its cause. -/
def message : InputError → Text
  | tooLarge length limit =>
    "payload too large: ".toList ++ Text.decimal length
      ++ " bytes exceeds the limit of ".toList ++ Text.decimal limit ++ " bytes".toList
  | unreadable name _ => "failed to read `".toList ++ name ++ "`".toList

/-- What lies behind an error. -/
def cause? : InputError → Option Text
  | tooLarge _ _ => none
  | unreadable _ cause => some cause.message

end InputError

/-- What can be read: files by their paths, and standard input. A file may have a size and
still not be readable, as a directory has. -/
structure Surroundings where
  file : Text → Except ReadFailure ByteArray
  standardInput : ByteArray
  fileSize : Text → Except ReadFailure Nat := fun path => (file path).map ByteArray.size

/-- Bytes as text. -/
def textOfBytes? (bytes : ByteArray) : Option Text := (String.fromUTF8? bytes).map String.toList

/-- The largest number of bytes that is ever asked for. -/
def largestRequest : Nat := UInt64.size - 1

/-- Refuse what is longer than the limit. -/
def checkSize (length limit : Nat) : Except InputError Unit :=
  if length > limit then .error (.tooLarge length limit) else .ok ()

/-- What was asked of a source, or that it cannot be read. -/
def Source.had {α : Type} (source : Source) : Except ReadFailure α → Except InputError α
  | .ok x => .ok x
  | .error cause => .error (.unreadable source.name cause)

/-- Bytes as the text of a source. -/
def Source.textOf (source : Source) (bytes : ByteArray) : Except InputError Text :=
  match textOfBytes? bytes with
  | some text => .ok text
  | none => .error (.unreadable source.name .notText)

/-- Read a source text that is not longer than the limit. -/
def Source.read (around : Surroundings) (limit : Nat) (source : Source) :
    Except InputError Text := do
  let text ←
    match source with
    | .inline text => pure text
    | .file path => do
      let size ← source.had (around.fileSize path)
      checkSize size limit
      let bytes ← source.had (around.file path)
      source.textOf bytes
    | .standardInput =>
      source.textOf (around.standardInput.extract 0 (min (limit + 1) largestRequest))
  checkSize (Text.size text) limit
  return text

end TreeLens
