import OpposingKeys.Json
import OpposingKeys.Text.Hexadecimal

/-!
# Writing JSON

The compact form, without any blank. A string escapes the quote, the backslash and the control
characters below U+0020, these by a letter where JSON has one; all else stands for itself.
-/

namespace OpposingKeys.Json

set_option autoImplicit false

/-- Four hexadecimal digits in lower case, introduced by a backslash and a `u`. -/
def numberEscape (n : Nat) : List Char := '\\' :: 'u' :: (Text.fourHexDigits n).map Char.toLower

def escape (c : Char) : List Char :=
  match c with
  | '"' => ['\\', '"']
  | '\\' => ['\\', '\\']
  | '\x08' => ['\\', 'b']
  | '\x0C' => ['\\', 'f']
  | '\n' => ['\\', 'n']
  | '\r' => ['\\', 'r']
  | '\t' => ['\\', 't']
  | c => if c < ' ' then numberEscape c.toNat else [c]

def Element.render : Element → List Char
  | scalar c => escape c
  | surrogate u => numberEscape u.toNat

def renderString (elements : List Element) : List Char :=
  '"' :: (elements.flatMap Element.render ++ ['"'])

mutual

def render : Json → List Char
  | .null => ['n', 'u', 'l', 'l']
  | .bool true => ['t', 'r', 'u', 'e']
  | .bool false => ['f', 'a', 'l', 's', 'e']
  | .number spelling => spelling
  | .string elements => renderString elements
  | .array items => '[' :: renderItems items
  | .object members => '\x7b' :: renderMembers members

/-- The items of an array and its end. -/
def renderItems : List Json → List Char
  | [] => [']']
  | [item] => render item ++ [']']
  | item :: rest => render item ++ ',' :: renderItems rest

/-- The members of an object and its end. -/
def renderMembers : List (List Element × Json) → List Char
  | [] => ['\x7d']
  | [(name, value)] => renderString name ++ ':' :: (render value ++ ['\x7d'])
  | (name, value) :: rest => renderString name ++ ':' :: (render value ++ ',' :: renderMembers rest)

end

end OpposingKeys.Json
