import OpposingKeys.Text.Unprintable

/-!
# Quoted texts

A text in double quotes. A quote, a backslash, a tabulator, the two line characters and NUL have an
escape of their own; any other unprintable character is written by its number.
-/

namespace OpposingKeys.Text

set_option autoImplicit false

def escape (c : Char) : List Char :=
  match c with
  | '"' => ['\\', '"']
  | '\\' => ['\\', '\\']
  | '\t' => ['\\', 't']
  | '\r' => ['\\', 'r']
  | '\n' => ['\\', 'n']
  | '\x00' => ['\\', '0']
  | c =>
    if isUnprintable c then ['\\', 'u', '\x7b'] ++ Nat.toDigits 16 c.toNat ++ ['\x7d'] else [c]

def quoted (s : String) : String := String.ofList ('"' :: s.toList.flatMap escape ++ ['"'])

end OpposingKeys.Text
