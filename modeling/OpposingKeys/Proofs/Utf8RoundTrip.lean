import OpposingKeys.Encoding

/-!
# UTF-8 gives a text back

Each character is written as one first byte and the bytes that it asks for. The first byte fixes the
bounds of the next one, and these hold because a character is written in the fewest bytes, is no
surrogate and is at most U+10FFFF.
-/

namespace OpposingKeys.Encoding

set_option autoImplicit false

theorem lenient_map_some (cs : List Char) : lenient (cs.map some) = cs := by
  simp [lenient, Function.comp_def]

theorem strict?_map_some (cs : List Char) : strict? (cs.map some) = some cs := by
  have hwhole : hasMalformed (cs.map some) = false := by simp [hasMalformed]
  rw [strict?, hwhole, lenient_map_some]
  rfl

namespace Utf8

section FirstByte
variable {q : Nat}

theorem first_of_one (h : q < 0x80) : first q.toUInt8 = ([some (Char.ofNat q)], none) := by
  revert q
  decide

theorem first_of_two (h : q < 0x20) (hlow : 2 ≤ q) :
    first (0xC0 + q).toUInt8 = ([], some ⟨q, 1, 0x80, 0xBF⟩) := by
  revert q
  decide

theorem first_of_three (h : q < 0x10) :
    first (0xE0 + q).toUInt8 =
      ([], some ⟨q, 2, if q = 0 then 0xA0 else 0x80, if q = 0xD then 0x9F else 0xBF⟩) := by
  revert q
  decide

theorem first_of_four (h : q < 5) :
    first (0xF0 + q).toUInt8 =
      ([], some ⟨q, 3, if q = 0 then 0x90 else 0x80, if q = 4 then 0x8F else 0xBF⟩) := by
  revert q
  decide

end FirstByte

section Decoding
variable {p : Pending} {b : UInt8} {value owed m : Nat} {low high : UInt8} (bs : List UInt8)

theorem decodeFrom_of_first (h : first b = ([], some p)) :
    decodeFrom none (b :: bs) = decodeFrom (some p) bs := by
  rw [decodeFrom, step, h, List.nil_append]

theorem step_next (hlow : p.low.toNat ≤ 0x80 + m % 0x40) (hhigh : 0x80 + m % 0x40 ≤ p.high.toNat) :
    step (some p) (0x80 + m % 0x40).toUInt8 =
      if p.owed ≤ 1 then ([some (Char.ofNat (p.value * 0x40 + m % 0x40))], none)
      else ([], some ⟨p.value * 0x40 + m % 0x40, p.owed - 1, 0x80, 0xBF⟩) := by
  have hbyte : (0x80 + m % 0x40).toUInt8.toNat = 0x80 + m % 0x40 := by
    rw [Nat.toUInt8, UInt8.toNat_ofNat']
    omega
  have hfits : p.low ≤ (0x80 + m % 0x40).toUInt8 ∧ (0x80 + m % 0x40).toUInt8 ≤ p.high := by
    simpa only [UInt8.le_iff_toNat_le, hbyte] using And.intro hlow hhigh
  simp only [step, if_pos hfits, hbyte, Nat.add_sub_cancel_left]

theorem decodeFrom_next (hlow : low.toNat ≤ 0x80 + m % 0x40) (hhigh : 0x80 + m % 0x40 ≤ high.toNat) :
    decodeFrom (some ⟨value, owed + 2, low, high⟩) ((0x80 + m % 0x40).toUInt8 :: bs) =
      decodeFrom (some ⟨value * 0x40 + m % 0x40, owed + 1, 0x80, 0xBF⟩) bs := by
  rw [decodeFrom, step_next hlow hhigh, if_neg (Nat.not_le.mpr (Nat.lt_add_left owed Nat.one_lt_two))]
  rfl

theorem decodeFrom_last (hlow : low.toNat ≤ 0x80 + m % 0x40) (hhigh : 0x80 + m % 0x40 ≤ high.toNat) :
    decodeFrom (some ⟨value, 1, low, high⟩) ((0x80 + m % 0x40).toUInt8 :: bs) =
      some (Char.ofNat (value * 0x40 + m % 0x40)) :: decodeFrom none bs := by
  rw [decodeFrom, step_next hlow hhigh, if_pos (Nat.le_refl 1)]
  rfl

end Decoding

theorem decodeFrom_encodeChar (c : Char) (bs : List UInt8) :
    decodeFrom none (encodeChar c ++ bs) = some c :: decodeFrom none bs := by
  have hvalid : c.toNat < 0xD800 ∨ 0xDFFF < c.toNat ∧ c.toNat < 0x110000 := c.valid
  have hvalue : Char.ofNat c.toNat = c := Char.ofNat_toNat c
  generalize hn : c.toNat = n at hvalid hvalue
  -- the bounds that the first byte leaves to the third one and the fourth
  have hlow (m : Nat) : 0x80 ≤ 0x80 + m % 0x40 := Nat.le_add_right _ _
  have hhigh (m : Nat) : 0x80 + m % 0x40 ≤ 0xBF := by omega
  rw [encodeChar, hn]
  dsimp only
  split
  · next hone =>
    rw [List.singleton_append, decodeFrom, step, first_of_one hone, hvalue]
    rfl
  split
  · next hone htwo =>
    have hsum : n / 0x40 * 0x40 + n % 0x40 = n := by omega
    simp only [List.cons_append, List.nil_append]
    rw [decodeFrom_of_first _ (first_of_two (by omega) (by omega)),
      decodeFrom_last _ (hlow n) (hhigh n), hsum, hvalue]
  split
  · next hone htwo hthree =>
    have hlow' : (if n / 0x1000 = 0 then 0xA0 else 0x80 : UInt8).toNat ≤ 0x80 + n / 0x40 % 0x40 := by
      split <;> dsimp <;> omega
    have hhigh' : 0x80 + n / 0x40 % 0x40 ≤ (if n / 0x1000 = 0xD then 0x9F else 0xBF : UInt8).toNat := by
      split <;> dsimp <;> omega
    have hsum : (n / 0x1000 * 0x40 + n / 0x40 % 0x40) * 0x40 + n % 0x40 = n := by omega
    simp only [List.cons_append, List.nil_append]
    rw [decodeFrom_of_first _ (first_of_three (by omega)), decodeFrom_next _ hlow' hhigh',
      decodeFrom_last _ (hlow n) (hhigh n), hsum, hvalue]
  · next hone htwo hthree =>
    have hlow' : (if n / 0x40000 = 0 then 0x90 else 0x80 : UInt8).toNat ≤
        0x80 + n / 0x1000 % 0x40 := by
      split <;> dsimp <;> omega
    have hhigh' : 0x80 + n / 0x1000 % 0x40 ≤
        (if n / 0x40000 = 4 then 0x8F else 0xBF : UInt8).toNat := by
      split <;> dsimp <;> omega
    have hsum : ((n / 0x40000 * 0x40 + n / 0x1000 % 0x40) * 0x40 + n / 0x40 % 0x40) * 0x40 +
      n % 0x40 = n := by omega
    simp only [List.cons_append, List.nil_append]
    rw [decodeFrom_of_first _ (first_of_four (by omega)), decodeFrom_next _ hlow' hhigh',
      decodeFrom_next _ (hlow _) (hhigh _), decodeFrom_last _ (hlow n) (hhigh n), hsum, hvalue]

theorem decode_encode (cs : List Char) : decode (encode cs) = cs.map some := by
  induction cs with
  | nil => rfl
  | cons c cs ih =>
    calc decode (encode (c :: cs))
      _ = decodeFrom none (encodeChar c ++ encode cs) := rfl
      _ = some c :: decode (encode cs) := decodeFrom_encodeChar c (encode cs)
      _ = (c :: cs).map some := by rw [ih]; rfl

end Utf8

end OpposingKeys.Encoding
