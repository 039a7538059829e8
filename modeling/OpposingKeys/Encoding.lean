import OpposingKeys.Encoding.Utf16
import OpposingKeys.Encoding.Utf8

/-!
# Encodings of a text

A text is stored in UTF-8 or in UTF-16 of either byte order. A byte order mark at the start tells
which. Decoding gives a `none` for each malformed piece; reading it leniently puts U+FFFD there,
and reading it strictly refuses the whole.
-/

namespace OpposingKeys

set_option autoImplicit false

inductive Encoding where
  | utf8
  | utf16le
  | utf16be
deriving DecidableEq

namespace Encoding

def name : Encoding → String
  | utf8 => "UTF-8"
  | utf16le => "UTF-16LE"
  | utf16be => "UTF-16BE"

/-- The byte order mark as this encoding writes it. -/
def mark : Encoding → List UInt8
  | utf8 => [0xEF, 0xBB, 0xBF]
  | utf16le => [0xFF, 0xFE]
  | utf16be => [0xFE, 0xFF]

def decode : Encoding → List UInt8 → List (Option Char)
  | utf8 => Utf8.decode
  | utf16le => Utf16.decode .little
  | utf16be => Utf16.decode .big

def encode : Encoding → List Char → List UInt8
  | utf8 => Utf8.encode
  | utf16le => Utf16.encode .little
  | utf16be => Utf16.encode .big

/-- The encoding whose mark the bytes start with, and the bytes behind the mark. -/
def ofMark? : List UInt8 → Option (Encoding × List UInt8)
  | 0xEF :: 0xBB :: 0xBF :: rest => some (utf8, rest)
  | 0xFF :: 0xFE :: rest => some (utf16le, rest)
  | 0xFE :: 0xFF :: rest => some (utf16be, rest)
  | _ => none

theorem ofMark?_mark (encoding : Encoding) (rest : List UInt8) :
    ofMark? (encoding.mark ++ rest) = some (encoding, rest) := by
  cases encoding <;> rfl

/-- U+FFFD in place of what is malformed. -/
def lenient (decoded : List (Option Char)) : List Char := decoded.map fun c => c.getD '\uFFFD'

theorem lenient_some (c : Char) (cs : List (Option Char)) : lenient (some c :: cs) = c :: lenient cs :=
  rfl

theorem lenient_none (cs : List (Option Char)) : lenient (none :: cs) = '\uFFFD' :: lenient cs := rfl

theorem lenient_append (cs cs' : List (Option Char)) :
    lenient (cs ++ cs') = lenient cs ++ lenient cs' := List.map_append

@[simp] theorem length_lenient (cs : List (Option Char)) : (lenient cs).length = cs.length :=
  List.length_map _

def hasMalformed (decoded : List (Option Char)) : Bool := decoded.any Option.isNone

/-- The text, if nothing is malformed. -/
def strict? (decoded : List (Option Char)) : Option (List Char) :=
  if hasMalformed decoded then none else some (lenient decoded)

theorem eq_lenient_of_strict? {decoded : List (Option Char)} {text : List Char}
    (h : strict? decoded = some text) : text = lenient decoded := by
  rw [strict?] at h
  split at h
  · cases h
  · exact (Option.some.inj h).symm

end Encoding

end OpposingKeys
