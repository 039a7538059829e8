/-!
# UTF-8

Decoding reads a byte at a time and keeps what an unfinished sequence still asks for. A byte that
does not fit ends the sequence and is read again as a first byte, so what is malformed is cut into
the longest pieces that could have begun a character. Each such piece becomes one `none`.
-/

namespace OpposingKeys.Encoding.Utf8

set_option autoImplicit false

/-- An unfinished sequence: its value so far, how many bytes it asks for, and the bounds of the
next of them. -/
structure Pending where
  value : Nat
  owed : Nat
  low : UInt8
  high : UInt8
deriving DecidableEq

/-- What one byte yields, and the sequence that is open after it. -/
abbrev Step := List (Option Char) × Option Pending

/-- A byte where no sequence is open. -/
def first (b : UInt8) : Step :=
  if b < 0x80 then ([some (Char.ofNat b.toNat)], none)
  else if 0xC2 ≤ b ∧ b ≤ 0xDF then ([], some ⟨b.toNat - 0xC0, 1, 0x80, 0xBF⟩)
  else if b = 0xE0 then ([], some ⟨0, 2, 0xA0, 0xBF⟩)
  else if b = 0xED then ([], some ⟨0xD, 2, 0x80, 0x9F⟩)
  else if 0xE1 ≤ b ∧ b ≤ 0xEF then ([], some ⟨b.toNat - 0xE0, 2, 0x80, 0xBF⟩)
  else if b = 0xF0 then ([], some ⟨0, 3, 0x90, 0xBF⟩)
  else if 0xF1 ≤ b ∧ b ≤ 0xF3 then ([], some ⟨b.toNat - 0xF0, 3, 0x80, 0xBF⟩)
  else if b = 0xF4 then ([], some ⟨4, 3, 0x80, 0x8F⟩)
  else ([none], none)

def step : Option Pending → UInt8 → Step
  | none, b => first b
  | some p, b =>
    if p.low ≤ b ∧ b ≤ p.high then
      let value := p.value * 0x40 + (b.toNat - 0x80)
      if p.owed ≤ 1 then ([some (Char.ofNat value)], none)
      else ([], some ⟨value, p.owed - 1, 0x80, 0xBF⟩)
    else
      let again := first b
      (none :: again.1, again.2)

/-- A sequence that is still open at the end is malformed. -/
def decodeFrom : Option Pending → List UInt8 → List (Option Char)
  | none, [] => []
  | some _, [] => [none]
  | p, b :: bs => (step p b).1 ++ decodeFrom (step p b).2 bs

def decode (bytes : List UInt8) : List (Option Char) := decodeFrom none bytes

def encodeChar (c : Char) : List UInt8 :=
  let n := c.toNat
  let tail (m : Nat) : UInt8 := (0x80 + m % 0x40).toUInt8
  if n < 0x80 then [n.toUInt8]
  else if n < 0x800 then [(0xC0 + n / 0x40).toUInt8, tail n]
  else if n < 0x10000 then [(0xE0 + n / 0x1000).toUInt8, tail (n / 0x40), tail n]
  else [(0xF0 + n / 0x40000).toUInt8, tail (n / 0x1000), tail (n / 0x40), tail n]

def encode (cs : List Char) : List UInt8 := cs.flatMap encodeChar

end OpposingKeys.Encoding.Utf8
