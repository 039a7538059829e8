import OpposingKeys.Encoding.Surrogate

/-!
# JSON values

A value keeps what may still matter when it is read as something: a number keeps its spelling, an
object all its members in order, and a string its surrogates, which need not pair up. Only a string
that is used as text has to be well-formed.
-/

namespace OpposingKeys

set_option autoImplicit false

inductive Json.Element where
  | scalar (c : Char)
  | surrogate (u : UInt16)
deriving DecidableEq

inductive Json where
  | null
  | bool (b : Bool)
  | number (spelling : List Char)
  | string (elements : List Json.Element)
  | array (items : List Json)
  | object (members : List (List Json.Element × Json))

namespace Json

/-- The element that a 16-bit unit stands for on its own. -/
def Element.ofUnit (u : UInt16) : Element :=
  if Encoding.isHigh u || Encoding.isLow u then .surrogate u else .scalar (Char.ofNat u.toNat)

/-- The text of a string, in which a high and a low surrogate join; none if one is left alone. -/
def text? : List Element → Option (List Char)
  | [] => some []
  | .scalar c :: rest => (text? rest).map (c :: ·)
  | .surrogate u :: .surrogate v :: rest =>
    if Encoding.isHigh u && Encoding.isLow v then
      (text? rest).map (Encoding.joinSurrogates u v :: ·)
    else none
  | .surrogate _ :: _ => none

def ofText (cs : List Char) : List Element := cs.map .scalar

@[simp] theorem text?_ofText (cs : List Char) : text? (ofText cs) = some cs := by
  induction cs with
  | nil => rfl
  | cons c cs ih =>
    show (text? (ofText cs)).map (c :: ·) = some (c :: cs)
    rw [ih]
    rfl

def ofNat (n : Nat) : Json := .number (Nat.toDigits 10 n)

def boolean? : Json → Option Bool
  | .bool b => some b
  | _ => none

/-- A number spelled with digits only. -/
def natural? : Json → Option Nat
  | .number spelling =>
    if spelling.all Char.isDigit then some (Nat.ofDigitChars 10 spelling 0) else none
  | _ => none

@[simp] theorem natural?_ofNat (n : Nat) : (ofNat n).natural? = some n := by
  have h : (Nat.toDigits 10 n).all Char.isDigit = true :=
    List.all_eq_true.mpr fun _ hc => Nat.isDigit_of_mem_toDigits (by decide) (by decide) hc
  simp [ofNat, natural?, h, Nat.ofDigitChars_toDigits]

def string? : Json → Option (List Char)
  | .string elements => text? elements
  | _ => none

/-- The members with the texts of their names; none if some name has no text. -/
def fields? : List (List Element × Json) → Option (List (List Char × Json))
  | [] => some []
  | (name, value) :: rest =>
    match text? name, fields? rest with
    | some name, some fields => some ((name, value) :: fields)
    | _, _ => none

/-- The value of the field `name`, if it is there; a field that is there twice is an error. -/
def optional? (name : String) (fields : List (List Char × Json)) : Option (Option Json) :=
  match fields.filter fun field => field.1 = name.toList with
  | [] => some none
  | [field] => some (some field.2)
  | _ => none

/-- The value of a field that has to be there, once. -/
def required? (name : String) (fields : List (List Char × Json)) : Option Json :=
  (optional? name fields).join

end Json

end OpposingKeys
