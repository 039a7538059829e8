import OpposingKeys.Json.Parser
import OpposingKeys.Json.Printer
import OpposingKeys.NamedTable

/-!
# Tables as JSON

A table is an object with the fields `name` and `pairs`, a pair one with `press` and `unpress`, and
a key is its code. Either may also be read from an array of all its fields in this order. The name
may be missing or null; fields of other names are passed over.
-/

namespace OpposingKeys

set_option autoImplicit false

def Key.ofJson? (json : Json) : Option Key := json.natural?.bind Key.ofNat?

def Key.toJson (k : Key) : Json := .ofNat k.code.toNat

namespace Pair

def toJson (p : Pair) : Json :=
  .object [(Json.ofText "press".toList, p.press.toJson),
    (Json.ofText "unpress".toList, p.unpress.toJson)]

def ofParts? (press unpress : Json) : Option Pair :=
  match Key.ofJson? press, Key.ofJson? unpress with
  | some press, some unpress => some ⟨press, unpress⟩
  | _, _ => none

def ofJson? : Json → Option Pair
  | .object members =>
    match Json.fields? members with
    | none => none
    | some fields =>
      match Json.required? "press" fields, Json.required? "unpress" fields with
      | some press, some unpress => ofParts? press unpress
      | _, _ => none
  | .array [press, unpress] => ofParts? press unpress
  | _ => none

def listOfJson? : Json → Option (List Pair)
  | .array items => items.mapM ofJson?
  | _ => none

end Pair

namespace NamedTable

def toJson (t : NamedTable) : Json :=
  .object
    [(Json.ofText "name".toList,
        match t.name with
        | some name => .string (Json.ofText name.toList)
        | none => .null),
      (Json.ofText "pairs".toList, .array (t.pairs.map Pair.toJson))]

/-- The name that a field holds; the outer `none` is for a field that holds none. -/
def nameOfJson? : Json → Option (Option String)
  | .null => some none
  | json => json.string?.map fun name => some (String.ofList name)

def ofParts? (name pairs : Json) : Option NamedTable :=
  match nameOfJson? name, Pair.listOfJson? pairs with
  | some name, some pairs => some ⟨name, pairs⟩
  | _, _ => none

def ofJson? : Json → Option NamedTable
  | .object members =>
    match Json.fields? members with
    | none => none
    | some fields =>
      match Json.optional? "name" fields, Json.required? "pairs" fields with
      | some name, some pairs => ofParts? (name.getD .null) pairs
      | _, _ => none
  | .array [name, pairs] => ofParts? name pairs
  | _ => none

def jsonText (t : NamedTable) : List Char := Json.render t.toJson

def ofJsonText? (text : List Char) : Option NamedTable := (Json.parse? text).bind ofJson?

end NamedTable

end OpposingKeys
