import OpposingKeys.Control
import OpposingKeys.Json.Parser
import OpposingKeys.Json.Printer

/-!
# Settings as JSON

The flags are an object with the boolean fields `cancellation_enabled` and `recovery_enabled`; a
missing one is false, and fields of other names are passed over. They may also be read from an array
of at most these two values in this order.
-/

namespace OpposingKeys.Flags

set_option autoImplicit false

def cancellationField : String := "cancellation_enabled"

def recoveryField : String := "recovery_enabled"

def toJson (flags : Flags) : Json :=
  .object [(Json.ofText cancellationField.toList, .bool flags.cancellation),
    (Json.ofText recoveryField.toList, .bool flags.recovery)]

/-- The value of one flag; a flag that is not there is false. -/
def switchOfJson? : Option Json → Option Bool
  | none => some false
  | some json => json.boolean?

def ofParts? (cancellation recovery : Option Json) : Option Flags :=
  match switchOfJson? cancellation, switchOfJson? recovery with
  | some cancellation, some recovery => some ⟨cancellation, recovery⟩
  | _, _ => none

def ofJson? : Json → Option Flags
  | .object members =>
    match Json.fields? members with
    | none => none
    | some fields =>
      match Json.optional? cancellationField fields, Json.optional? recoveryField fields with
      | some cancellation, some recovery => ofParts? cancellation recovery
      | _, _ => none
  | .array [] => ofParts? none none
  | .array [cancellation] => ofParts? (some cancellation) none
  | .array [cancellation, recovery] => ofParts? (some cancellation) (some recovery)
  | _ => none

def ofJsonText? (text : List Char) : Option Flags := (Json.parse? text).bind ofJson?

def jsonText (flags : Flags) : List Char := Json.render flags.toJson

/-- The same object with each field on a line of its own. -/
def settingsText (flags : Flags) : List Char :=
  let line (name : String) (on : Bool) : List Char :=
    ' ' :: ' ' :: Json.renderString (Json.ofText name.toList) ++
      ':' :: ' ' :: Json.render (.bool on)
  '\x7b' :: '\n' :: line cancellationField flags.cancellation ++
    ',' :: '\n' :: line recoveryField flags.recovery ++ ['\n', '\x7d']

end OpposingKeys.Flags
