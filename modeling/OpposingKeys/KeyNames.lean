import OpposingKeys.Key
import OpposingKeys.Text.Cut
import OpposingKeys.Text.Hexadecimal

/-!
# Names of keys

A key may have one canonical name, which starts with `KC_`, and short aliases. Names are kept
here without that start. A key without a name is shown by its code.
-/

namespace OpposingKeys.Key

set_option autoImplicit false

/-- The canonical names, each without its start `KC_`. -/
def names : List (String × Key) :=
  [("NO", ⟨0x00⟩),
   ("A", ⟨0x04⟩), ("B", ⟨0x05⟩), ("C", ⟨0x06⟩), ("D", ⟨0x07⟩), ("E", ⟨0x08⟩), ("F", ⟨0x09⟩),
   ("G", ⟨0x0A⟩), ("H", ⟨0x0B⟩), ("I", ⟨0x0C⟩),
   ("J", ⟨0x0D⟩), ("K", ⟨0x0E⟩), ("L", ⟨0x0F⟩), ("M", ⟨0x10⟩), ("N", ⟨0x11⟩), ("O", ⟨0x12⟩),
   ("P", ⟨0x13⟩), ("Q", ⟨0x14⟩), ("R", ⟨0x15⟩),
   ("S", ⟨0x16⟩), ("T", ⟨0x17⟩), ("U", ⟨0x18⟩), ("V", ⟨0x19⟩), ("W", ⟨0x1A⟩), ("X", ⟨0x1B⟩),
   ("Y", ⟨0x1C⟩), ("Z", ⟨0x1D⟩),
   ("1", ⟨0x1E⟩), ("2", ⟨0x1F⟩), ("3", ⟨0x20⟩), ("4", ⟨0x21⟩), ("5", ⟨0x22⟩), ("6", ⟨0x23⟩),
   ("7", ⟨0x24⟩), ("8", ⟨0x25⟩), ("9", ⟨0x26⟩), ("0", ⟨0x27⟩),
   ("ENTER", ⟨0x28⟩), ("ESCAPE", ⟨0x29⟩), ("BACKSPACE", ⟨0x2A⟩), ("TAB", ⟨0x2B⟩),
   ("SPACE", ⟨0x2C⟩),
   ("MINUS", ⟨0x2D⟩), ("EQUAL", ⟨0x2E⟩), ("LEFT_BRACKET", ⟨0x2F⟩), ("RIGHT_BRACKET", ⟨0x30⟩),
   ("BACKSLASH", ⟨0x31⟩), ("SEMICOLON", ⟨0x33⟩), ("QUOTE", ⟨0x34⟩), ("GRAVE", ⟨0x35⟩),
   ("COMMA", ⟨0x36⟩), ("DOT", ⟨0x37⟩), ("SLASH", ⟨0x38⟩), ("CAPS_LOCK", ⟨0x39⟩),
   ("F1", ⟨0x3A⟩), ("F2", ⟨0x3B⟩), ("F3", ⟨0x3C⟩), ("F4", ⟨0x3D⟩), ("F5", ⟨0x3E⟩), ("F6", ⟨0x3F⟩),
   ("F7", ⟨0x40⟩), ("F8", ⟨0x41⟩), ("F9", ⟨0x42⟩), ("F10", ⟨0x43⟩), ("F11", ⟨0x44⟩),
   ("F12", ⟨0x45⟩),
   ("PRINT_SCREEN", ⟨0x46⟩), ("SCROLL_LOCK", ⟨0x47⟩), ("PAUSE", ⟨0x48⟩),
   ("INSERT", ⟨0x49⟩), ("HOME", ⟨0x4A⟩), ("PAGE_UP", ⟨0x4B⟩), ("DELETE", ⟨0x4C⟩),
   ("END", ⟨0x4D⟩), ("PAGE_DOWN", ⟨0x4E⟩),
   ("RIGHT", ⟨0x4F⟩), ("LEFT", ⟨0x50⟩), ("DOWN", ⟨0x51⟩), ("UP", ⟨0x52⟩), ("EXSEL", ⟨0xA4⟩),
   ("LEFT_CTRL", ⟨0xE0⟩), ("LEFT_SHIFT", ⟨0xE1⟩), ("LEFT_ALT", ⟨0xE2⟩), ("LEFT_GUI", ⟨0xE3⟩),
   ("RIGHT_CTRL", ⟨0xE4⟩), ("RIGHT_SHIFT", ⟨0xE5⟩), ("RIGHT_ALT", ⟨0xE6⟩), ("RIGHT_GUI", ⟨0xE7⟩)]

/-- Further names that are read but never shown. -/
def aliases : List (String × Key) :=
  [("ENT", ⟨0x28⟩), ("ESC", ⟨0x29⟩), ("BSPC", ⟨0x2A⟩), ("SPC", ⟨0x2C⟩), ("RGHT", ⟨0x4F⟩),
   ("LSFT", ⟨0xE1⟩), ("RSFT", ⟨0xE5⟩), ("LCTL", ⟨0xE0⟩), ("RCTL", ⟨0xE4⟩)]

/-- The canonical names as they are shown, in the order of their codes. -/
def canonicalNames : List (String × Key) := names.map fun entry => ("KC_" ++ entry.1, entry.2)

def name? (k : Key) : Option String :=
  (names.find? fun entry => entry.2 = k).map fun entry => "KC_" ++ entry.1

/-- The canonical name, or `0x` and four hexadecimal digits. -/
def display (k : Key) : String :=
  k.name?.getD ("0x" ++ String.ofList (Text.fourHexDigits k.code.toNat))

/-- Keys in order, within brackets. -/
def displayList (keys : List Key) : String :=
  "[" ++ ", ".intercalate (keys.map display) ++ "]"

/-- Positions in order, within brackets; one without a key is shown as `_`. -/
def displaySlots (slots : List (Option Key)) : String :=
  "[" ++ ", ".intercalate (slots.map fun slot => (slot.map display).getD "_") ++ "]"

/-- Names are found in either letter case, with or without `KC_`. -/
def named? (cs : List Char) : Option Key :=
  let upper := cs.map Char.toUpper
  (names ++ aliases).lookup (String.ofList ((Text.after? ['K', 'C', '_'] upper).getD upper))

end OpposingKeys.Key
