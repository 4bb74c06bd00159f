import TreeLens.Input
import TreeLens.Options

/-!
# Arguments

Arguments are read from left to right, and the first one that is out of place decides. A
request for the version is answered as soon as it is met. That a text is given both in
place and by a path is noticed only at the end.
-/

namespace TreeLens.CommandLine

/-- What the arguments ask for. -/
structure Command where
  path? : Option Text := none
  code? : Option Text := none
  fold : Bool := false
  showMissing : Bool := false
  pretty : Bool := false
  diagnostics : Bool := false
  words : List Text := []
  sizeLimit? : Option Nat := none
  deriving DecidableEq

/-- Why arguments cannot be followed. -/
inductive UsageError where
  | unknownOption (argument : Text)
  | repeatedOption (name : Text)
  | unexpectedValue (name : Text)
  | missingValue (name : Text)
  | invalidSize (value : Text)
  | extraArgument (argument : Text)
  | codeAndPath
  deriving DecidableEq

/-- The wording of a usage error. -/
def UsageError.message : UsageError → Text
  | unknownOption argument => "unknown option ".toList ++ argument
  | repeatedOption name => "repeated option --".toList ++ name
  | unexpectedValue name => "no value is allowed for --".toList ++ name
  | missingValue name => "a value is required for --".toList ++ name
  | invalidSize value => "invalid size ".toList ++ value
  | extraArgument argument => "unexpected argument ".toList ++ argument
  | codeAndPath => "a path cannot be used together with --code".toList

/-- A request: to print the version, or to follow a command. -/
inductive Request where
  | version
  | follow (command : Command)
  deriving DecidableEq

/-- Options without a value. -/
inductive Flag where
  | fold | showMissing | pretty | diagnostics
  deriving DecidableEq

namespace Flag

/-- Every flag. -/
def all : List Flag := [fold, showMissing, pretty, diagnostics]

/-- The name of a flag after its hyphens. -/
def name : Flag → String
  | fold => "fold"
  | showMissing => "show-missing"
  | pretty => "pretty"
  | diagnostics => "diagnostics"

/-- Whether a command has a flag set. -/
def isSet (c : Command) : Flag → Bool
  | fold => c.fold
  | showMissing => c.showMissing
  | pretty => c.pretty
  | diagnostics => c.diagnostics

/-- Set a flag of a command. -/
def set (c : Command) : Flag → Command
  | fold => { c with fold := true }
  | showMissing => { c with showMissing := true }
  | pretty => { c with pretty := true }
  | diagnostics => { c with diagnostics := true }

end Flag

/-- Options with a value. -/
inductive Setting where
  | code | options | maxSize
  deriving DecidableEq

/-- A size is written in decimal, possibly after a plus sign, and fits into 64 bits. -/
def size? (value : Text) : Option Nat :=
  let digits := if value.head? = some '+' then value.tail else value
  if digits.isEmpty || !digits.all Char.isDigit then none
  else
    let n := digits.foldl (fun n d => n * 10 + (d.toNat - '0'.toNat)) 0
    if n < UInt64.size then some n else none

/-- The words between commas. -/
def splitWords (value : Text) : List Text := value.splitOn ','

namespace Setting

/-- Every setting. -/
def all : List Setting := [code, options, maxSize]

/-- The name of a setting after its hyphens. -/
def name : Setting → String
  | code => "code"
  | options => "options"
  | maxSize => "max-size"

/-- Give a setting a value. Only the option words may be given repeatedly; they add up. -/
def set (c : Command) (value : Text) : Setting → Except UsageError Command
  | code =>
    if c.code?.isSome then .error (.repeatedOption code.name.toList)
    else .ok { c with code? := some value }
  | options => .ok { c with words := c.words ++ splitWords value }
  | maxSize =>
    if c.sizeLimit?.isSome then .error (.repeatedOption maxSize.name.toList)
    else match size? value with
      | some n => .ok { c with sizeLimit? := some n }
      | none => .error (.invalidSize value)

end Setting

namespace Command

/-- The limit unless another one is given. -/
def defaultSizeLimit : Nat := 64 * 1024

/-- The limit on the size of the source text. -/
def sizeLimit (c : Command) : Nat := c.sizeLimit?.getD defaultSizeLimit

/-- Whether a path names standard input: its only component is a hyphen. Empty components
and dots after it do not count. -/
def isHyphen (path : Text) : Bool :=
  match path.splitOn '/' with
  | [] => false
  | first :: more => first == ['-'] && more.all fun part => part == [] || part == ['.']

/-- The source of a command. A hyphen and no path at all are standard input. -/
def source (c : Command) : Source :=
  match c.code?, c.path? with
  | some code, _ => .inline code
  | none, some path => if isHyphen path then .standardInput else .file path
  | none, none => .standardInput

/-- The parse options of a command, given by words or by a flag. -/
def parseOptions (c : Command) : ParseOptions :=
  ⟨(ParseOptions.ofWords c.words).fold || c.fold⟩

/-- The show options of a command, given by words or by a flag. -/
def showOptions (c : Command) : ShowOptions :=
  ⟨(ShowOptions.ofWords c.words).missingTokens || c.showMissing⟩

/-- Take a path; there is at most one. -/
def setPath (c : Command) (path : Text) : Except UsageError Command :=
  if c.path?.isSome then .error (.extraArgument path) else .ok { c with path? := some path }

/-- Set a flag, which is done at most once. -/
def setFlag (c : Command) (f : Flag) : Except UsageError Command :=
  if f.isSet c then .error (.repeatedOption f.name.toList) else .ok (f.set c)

/-- The request of a complete command. -/
def finish (c : Command) : Except UsageError Request :=
  if c.code?.isSome && c.path?.isSome then .error .codeAndPath else .ok (.follow c)

end Command

/-- What a single argument is: the end of all options, a long option with the value after
its equals sign, a request for the version by its letter, some other letter, or a plain
argument. A single hyphen is plain. -/
inductive Argument where
  | endOfOptions
  | long (name : Text) (value? : Option Text)
  | versionLetter
  | letter
  | plain
  deriving DecidableEq

/-- What an argument is. -/
def Argument.ofText : Text → Argument
  | ['-', '-'] => endOfOptions
  | '-' :: '-' :: body =>
    long (body.takeWhile (· ≠ '=')) (body.dropWhile (· ≠ '=')).tail?
  | '-' :: 'V' :: _ => versionLetter
  | '-' :: _ :: _ => letter
  | _ => plain

/-- What a long option is. -/
inductive LongOption where
  | version
  | flag (f : Flag)
  | setting (s : Setting)

/-- The long option with a name. -/
def LongOption.ofName? (name : Text) : Option LongOption :=
  if name = "version".toList then some version
  else match Flag.all.find? fun f => f.name.toList = name with
    | some f => some (flag f)
    | none => (Setting.all.find? fun s => s.name.toList = name).map setting

/-- Plain arguments after the end of options. -/
def readPaths (c : Command) : List Text → Except UsageError Request
  | [] => c.finish
  | argument :: rest => do
    let c ← c.setPath argument
    readPaths c rest

/-- Read arguments into a command. -/
def readArguments (c : Command) : List Text → Except UsageError Request
  | [] => c.finish
  | argument :: rest =>
    match Argument.ofText argument with
    | .endOfOptions => readPaths c rest
    | .versionLetter => .ok .version
    | .letter => .error (.unknownOption argument)
    | .plain => do
      let c ← c.setPath argument
      readArguments c rest
    | .long name value? =>
      match LongOption.ofName? name, value? with
      | none, _ => .error (.unknownOption argument)
      | some .version, none => .ok .version
      | some .version, some _ => .error (.unexpectedValue name)
      | some (.flag _), some _ => .error (.unexpectedValue name)
      | some (.flag f), none => do
        let c ← c.setFlag f
        readArguments c rest
      | some (.setting s), some value => do
        let c ← s.set c value
        readArguments c rest
      | some (.setting s), none =>
        match rest with
        | [] => .error (.missingValue name)
        | value :: rest => do
          if Argument.ofText value ≠ .plain then .error (.missingValue name)
          let c ← s.set c value
          readArguments c rest

/-- The request that arguments make. -/
def Request.ofArguments (arguments : List Text) : Except UsageError Request :=
  readArguments {} arguments

end TreeLens.CommandLine
