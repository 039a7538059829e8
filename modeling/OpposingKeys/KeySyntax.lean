import OpposingKeys.KeyNames
import OpposingKeys.Text.Blank

/-!
# Reading a key

A key is written by a name or by its code in hexadecimal, which `0x` or `0X` introduces. Blanks
around it do not count. A text that starts as a code is never looked up as a name.
-/

namespace OpposingKeys.Key

set_option autoImplicit false

/-- One plus sign may stand before the digits of a code. -/
def dropPlus : List Char → List Char
  | '+' :: cs => cs
  | cs => cs

/-- A code of any number of digits, as long as it fits in 16 bits. -/
def ofHex? (cs : List Char) : Option Key := (Text.hexNumber? (dropPlus cs)).bind ofNat?

/-- The key that a text without outer blanks denotes. -/
def denoted? : List Char → Option Key
  | '0' :: 'x' :: digits => ofHex? digits
  | '0' :: 'X' :: digits => ofHex? digits
  | name => named? name

def parse? (cs : List Char) : Option Key := denoted? (Text.trim cs)

theorem parse?_trim (cs : List Char) : parse? (Text.trim cs) = parse? cs := by
  rw [parse?, Text.trim_trim, parse?]

theorem parse?_trimLeft (cs : List Char) : parse? (Text.trimLeft cs) = parse? cs := by
  rw [parse?, Text.trim_trimLeft, parse?]

theorem parse?_trimRight (cs : List Char) : parse? (Text.trimRight cs) = parse? cs := by
  rw [parse?, Text.trim_trimRight, parse?]

theorem parse?_append_left {blanks : List Char} (h : Text.Blank blanks) (cs : List Char) :
    parse? (blanks ++ cs) = parse? cs := by
  rw [parse?, Text.trim_append_left h, parse?]

theorem parse?_append_right {blanks : List Char} (h : Text.Blank blanks) (cs : List Char) :
    parse? (cs ++ blanks) = parse? cs := by
  rw [parse?, Text.trim_append_right h, parse?]

theorem parse?_of_blank {cs : List Char} (h : Text.Blank cs) : parse? cs = none := by
  rw [parse?, Text.trim_eq_nil_iff.mpr h]
  decide

end OpposingKeys.Key
