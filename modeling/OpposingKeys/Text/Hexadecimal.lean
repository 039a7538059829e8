/-!
# Hexadecimal digits
-/

namespace OpposingKeys.Text

set_option autoImplicit false

/-- The value of a digit of either letter case. -/
def hexValue? (c : Char) : Option Nat :=
  if '0' ≤ c ∧ c ≤ '9' then some (c.toNat - '0'.toNat)
  else if 'A' ≤ c ∧ c ≤ 'F' then some (c.toNat - 'A'.toNat + 10)
  else if 'a' ≤ c ∧ c ≤ 'f' then some (c.toNat - 'a'.toNat + 10)
  else none

/-- The digit of a value below 16, in upper case. -/
def hexDigit (d : Nat) : Char :=
  if d < 10 then Char.ofNat ('0'.toNat + d) else Char.ofNat ('A'.toNat + (d - 10))

theorem hexValue?_hexDigit {d : Nat} (h : d < 16) : hexValue? (hexDigit d) = some d := by
  revert d
  decide

theorem hexValue?_lt {c : Char} {d : Nat} (h : hexValue? c = some d) : d < 16 := by
  simp only [hexValue?, Char.le_def, UInt32.le_iff_toNat_le] at h
  split at h
  · next hc =>
    have : c.toNat ≤ 57 := hc.2
    simp at h
    omega
  · split at h
    · next hc =>
      have : c.toNat ≤ 70 := hc.2
      simp at h
      omega
    · split at h
      · next hc =>
        have : c.toNat ≤ 102 := hc.2
        simp at h
        omega
      · simp at h

/-- Only the capital letters from A to Z have another lower case. -/
theorem toLower_cases (c : Char) : c.toLower = c ∨ ∃ n, 65 ≤ n ∧ n < 91 ∧ c = Char.ofNat n := by
  by_cases hc : 'A'.val ≤ c.val ∧ c.val ≤ 'Z'.val
  · have hlow : 65 ≤ c.toNat := UInt32.le_iff_toNat_le.mp hc.1
    have hhigh : c.toNat ≤ 90 := UInt32.le_iff_toNat_le.mp hc.2
    exact Or.inr ⟨c.toNat, hlow, by omega, (Char.ofNat_toNat c).symm⟩
  · exact Or.inl (dif_neg hc)

/-- A digit has the same value in either letter case. -/
theorem hexValue?_toLower (c : Char) : hexValue? c.toLower = hexValue? c := by
  obtain hsame | ⟨n, hlow, hhigh, rfl⟩ := toLower_cases c
  · rw [hsame]
  · have hupper : ∀ n, n < 91 → 65 ≤ n →
        hexValue? (Char.ofNat n).toLower = hexValue? (Char.ofNat n) := by decide
    exact hupper n hhigh hlow

/-- The number that the digits after `value` go on to write; none if some character is no digit. -/
def hexNumberFrom? (value : Nat) : List Char → Option Nat
  | [] => some value
  | c :: cs => (hexValue? c).bind fun d => hexNumberFrom? (16 * value + d) cs

/-- The number that at least one digit writes. -/
def hexNumber? (cs : List Char) : Option Nat :=
  if cs.isEmpty then none else hexNumberFrom? 0 cs

theorem hexNumberFrom?_map_toLower (value : Nat) (cs : List Char) :
    hexNumberFrom? value (cs.map Char.toLower) = hexNumberFrom? value cs := by
  induction cs generalizing value with
  | nil => rfl
  | cons c cs ih => simp only [List.map_cons, hexNumberFrom?, hexValue?_toLower, ih]

theorem hexNumber?_map_toLower (cs : List Char) :
    hexNumber? (cs.map Char.toLower) = hexNumber? cs := by
  rw [hexNumber?, hexNumber?, List.isEmpty_map, hexNumberFrom?_map_toLower]

/-- The last four digits of `n`, in upper case. -/
def fourHexDigits (n : Nat) : List Char :=
  [hexDigit (n / 4096 % 16), hexDigit (n / 256 % 16), hexDigit (n / 16 % 16), hexDigit (n % 16)]

@[simp] theorem length_fourHexDigits (n : Nat) : (fourHexDigits n).length = 4 := rfl

theorem hexNumber?_fourHexDigits {n : Nat} (h : n < 65536) :
    hexNumber? (fourHexDigits n) = some n := by
  have h3 := hexValue?_hexDigit (Nat.mod_lt (n / 4096) (by decide : 0 < 16))
  have h2 := hexValue?_hexDigit (Nat.mod_lt (n / 256) (by decide : 0 < 16))
  have h1 := hexValue?_hexDigit (Nat.mod_lt (n / 16) (by decide : 0 < 16))
  have h0 := hexValue?_hexDigit (Nat.mod_lt n (by decide : 0 < 16))
  simp only [hexNumber?, fourHexDigits, hexNumberFrom?, h3, h2, h1, h0, Option.bind_some,
    List.isEmpty_cons, Bool.false_eq_true, if_false, Option.some.injEq]
  omega

end OpposingKeys.Text
