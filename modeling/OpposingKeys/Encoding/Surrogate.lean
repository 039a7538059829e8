/-!
# Surrogates

Characters beyond the first 65536 are written in 16-bit units as a high surrogate followed by a low
one. A surrogate without its partner stands for no character.
-/

namespace OpposingKeys.Encoding

set_option autoImplicit false

def isHigh (u : UInt16) : Bool := 0xD800 ≤ u && u ≤ 0xDBFF

def isLow (u : UInt16) : Bool := 0xDC00 ≤ u && u ≤ 0xDFFF

/-- The character of a high and a low surrogate. -/
def joinSurrogates (high low : UInt16) : Char :=
  Char.ofNat (0x10000 + (high.toNat - 0xD800) * 0x400 + (low.toNat - 0xDC00))

def units (c : Char) : List UInt16 :=
  if c.toNat < 0x10000 then [c.toNat.toUInt16]
  else
    [(0xD800 + (c.toNat - 0x10000) / 0x400).toUInt16,
     (0xDC00 + (c.toNat - 0x10000) % 0x400).toUInt16]

section Values
variable {n : Nat} {u v : UInt16}

theorem toNat_ofNat (h : n < 0xD800 ∨ 0xDFFF < n ∧ n < 0x110000) : (Char.ofNat n).toNat = n :=
  congrArg Char.toNat (dif_pos h)

/-- A number that is no character's gives the null character. -/
theorem toNat_ofNat_or (n : Nat) : (Char.ofNat n).toNat = n ∨ (Char.ofNat n).toNat = 0 := by
  by_cases h : n.isValidChar
  · exact Or.inl (toNat_ofNat h)
  · exact Or.inr (congrArg Char.toNat (dif_neg h : Char.ofNat n = '\x00'))

theorem isHigh_iff : isHigh u = true ↔ 0xD800 ≤ u.toNat ∧ u.toNat ≤ 0xDBFF := by
  simp [isHigh, UInt16.le_iff_toNat_le]

theorem isLow_iff : isLow u = true ↔ 0xDC00 ≤ u.toNat ∧ u.toNat ≤ 0xDFFF := by
  simp [isLow, UInt16.le_iff_toNat_le]

theorem le_toNat_joinSurrogates (hu : isHigh u = true) (hv : isLow v = true) :
    0x10000 ≤ (joinSurrogates u v).toNat := by
  rw [isHigh_iff] at hu
  rw [isLow_iff] at hv
  rw [joinSurrogates, toNat_ofNat (by omega)]
  omega

end Values

end OpposingKeys.Encoding
