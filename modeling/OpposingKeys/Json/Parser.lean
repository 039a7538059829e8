import OpposingKeys.Json
import OpposingKeys.Text.Cut
import OpposingKeys.Text.Hexadecimal

/-!
# Reading JSON

Strict JSON: one value, with nothing but the four JSON blanks around it. Values may nest to any
depth. Numbers and strings are checked for their form only. Each reader takes what it reads from the
front of the text and gives the rest back.
-/

namespace OpposingKeys.Json

set_option autoImplicit false

def isBlank (c : Char) : Bool := c == ' ' || c == '\t' || c == '\n' || c == '\r'

def skipBlanks (cs : List Char) : List Char := cs.dropWhile isBlank

/-- The character that a single letter behind a backslash stands for. -/
def simpleEscape? : Char → Option Char
  | '"' => some '"'
  | '\\' => some '\\'
  | '/' => some '/'
  | 'b' => some '\x08'
  | 'f' => some '\x0C'
  | 'n' => some '\n'
  | 'r' => some '\r'
  | 't' => some '\t'
  | _ => none

/-- The elements up to the closing quote. -/
def readString? : List Char → Option (List Element × List Char)
  | [] => none
  | '"' :: cs => some ([], cs)
  | '\\' :: 'u' :: a :: b :: c :: d :: cs =>
    match Text.hexNumber? [a, b, c, d] with
    | some n => (readString? cs).map fun read => (Element.ofUnit n.toUInt16 :: read.1, read.2)
    | none => none
  | '\\' :: e :: cs =>
    match simpleEscape? e with
    | some c => (readString? cs).map fun read => (.scalar c :: read.1, read.2)
    | none => none
  | c :: cs =>
    if c == '\\' || c < ' ' then none
    else (readString? cs).map fun read => (.scalar c :: read.1, read.2)

/-- At least one digit. -/
def readDigits? (cs : List Char) : Option (List Char × List Char) :=
  match cs.takeWhile Char.isDigit with
  | [] => none
  | digits => some (digits, cs.dropWhile Char.isDigit)

/-- A zero alone, or digits that do not start with one. -/
def readInteger? : List Char → Option (List Char × List Char)
  | '0' :: cs => some (['0'], cs)
  | cs => readDigits? cs

def readFraction? : List Char → Option (List Char × List Char)
  | '.' :: cs => (readDigits? cs).map fun read => ('.' :: read.1, read.2)
  | cs => some ([], cs)

def readExponent? : List Char → Option (List Char × List Char)
  | e :: cs =>
    if e == 'e' || e == 'E' then
      match cs with
      | '+' :: cs => (readDigits? cs).map fun read => (e :: '+' :: read.1, read.2)
      | '-' :: cs => (readDigits? cs).map fun read => (e :: '-' :: read.1, read.2)
      | cs => (readDigits? cs).map fun read => (e :: read.1, read.2)
    else some ([], e :: cs)
  | [] => some ([], [])

def readUnsigned? (cs : List Char) : Option (List Char × List Char) :=
  match readInteger? cs with
  | none => none
  | some (integer, cs) =>
    match readFraction? cs with
    | none => none
    | some (fraction, cs) =>
      (readExponent? cs).map fun read => (integer ++ fraction ++ read.1, read.2)

def readNumber? : List Char → Option (List Char × List Char)
  | '-' :: cs => (readUnsigned? cs).map fun read => ('-' :: read.1, read.2)
  | cs => readUnsigned? cs

/-- A value that is neither string, array nor object. -/
def readPlain? (cs : List Char) : Option (Json × List Char) :=
  match Text.after? ['n', 'u', 'l', 'l'] cs with
  | some rest => some (.null, rest)
  | none =>
    match Text.after? ['t', 'r', 'u', 'e'] cs with
    | some rest => some (.bool true, rest)
    | none =>
      match Text.after? ['f', 'a', 'l', 's', 'e'] cs with
      | some rest => some (.bool false, rest)
      | none => (readNumber? cs).map fun read => (.number read.1, read.2)

/-- The name of a member and the colon behind it. -/
def readName? (cs : List Char) : Option (List Element × List Char) :=
  match skipBlanks cs with
  | '"' :: cs =>
    match readString? cs with
    | some (name, cs) =>
      match skipBlanks cs with
      | ':' :: cs => some (name, cs)
      | _ => none
    | none => none
  | _ => none

mutual

/-- A value at the front. Each level of nesting takes two steps of `fuel`, each further item one. -/
def readValue? : (fuel : Nat) → List Char → Option (Json × List Char)
  | 0, _ => none
  | fuel + 1, cs =>
    match skipBlanks cs with
    | '"' :: cs => (readString? cs).map fun read => (.string read.1, read.2)
    | '[' :: cs =>
      match skipBlanks cs with
      | ']' :: cs => some (.array [], cs)
      | cs => (readItems? fuel cs).map fun read => (.array read.1, read.2)
    | '\x7b' :: cs =>
      match skipBlanks cs with
      | '\x7d' :: cs => some (.object [], cs)
      | cs => (readMembers? fuel cs).map fun read => (.object read.1, read.2)
    | cs => readPlain? cs

/-- The items of an array, at least one, up to its end. -/
def readItems? : (fuel : Nat) → List Char → Option (List Json × List Char)
  | 0, _ => none
  | fuel + 1, cs =>
    match readValue? fuel cs with
    | none => none
    | some (item, cs) =>
      match skipBlanks cs with
      | ',' :: cs => (readItems? fuel cs).map fun read => (item :: read.1, read.2)
      | ']' :: cs => some ([item], cs)
      | _ => none

/-- The members of an object, at least one, up to its end. -/
def readMembers? : (fuel : Nat) → List Char → Option (List (List Element × Json) × List Char)
  | 0, _ => none
  | fuel + 1, cs =>
    match readName? cs with
    | none => none
    | some (name, cs) =>
      match readValue? fuel cs with
      | none => none
      | some (value, cs) =>
        match skipBlanks cs with
        | ',' :: cs => (readMembers? fuel cs).map fun read => ((name, value) :: read.1, read.2)
        | '\x7d' :: cs => some ([(name, value)], cs)
        | _ => none

end

/-- Every step but those into an array or object takes a character, so two for each suffice. -/
def parse? (cs : List Char) : Option Json :=
  match readValue? (2 * cs.length + 2) cs with
  | some (value, rest) => if (skipBlanks rest).isEmpty then some value else none
  | none => none

end OpposingKeys.Json
