import TreeLens.Json.Decode
import TreeLens.Options

/-!
# Options from JSON

Each set of options is a record of its own. All fields may be absent, and the fields of the
other set are unknown and passed over.
-/

namespace TreeLens

open Json (Reader)

/-- The only field of a set of options, a truth value that is false unless given. -/
def switch {α : Type} (name : String) (ofBool : Bool → α) : Reader α :=
  .record none [Reader.Field.of name id (fun v _ => some v) .boolean]
    fun given => some (ofBool (given.getD false))

/-- The parse options that a JSON text holds. -/
def ParseOptions.decode (t : Text) : Except Json.Fault ParseOptions :=
  Json.decode (switch "fold" ParseOptions.mk) t

/-- The show options that a JSON text holds. -/
def ShowOptions.decode (t : Text) : Except Json.Fault ShowOptions :=
  Json.decode (switch "showMissingTokens" ShowOptions.mk) t

end TreeLens
