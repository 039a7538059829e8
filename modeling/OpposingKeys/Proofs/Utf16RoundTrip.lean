import OpposingKeys.Encoding

/-!
# UTF-16 gives a text back

A unit is put together again from its two bytes in either order. A character below U+10000 is no
surrogate, so its only unit stands for it, and any other character is joined again from its two
surrogates.
-/

namespace OpposingKeys.Encoding.Utf16

set_option autoImplicit false

section Bytes
variable (order : Order) (u : UInt16)

theorem toNat_shift_or (high low : UInt8) :
    (high.toUInt16 <<< 8 ||| low.toUInt16).toNat = high.toNat * 256 + low.toNat := by
  have hlow : low.toNat < 2 ^ 8 := low.toNat_lt
  have hhigh : high.toNat < 2 ^ 8 := high.toNat_lt
  have hshift : high.toNat <<< 8 % 2 ^ 16 = high.toNat <<< 8 := by
    rw [Nat.shiftLeft_eq]
    omega
  rw [UInt16.toNat_or, UInt16.toNat_shiftLeft, UInt8.toNat_toUInt16, UInt8.toNat_toUInt16]
  show high.toNat <<< 8 % 2 ^ 16 ||| low.toNat = _
  rw [hshift, ← Nat.shiftLeft_add_eq_or_of_lt hlow, Nat.shiftLeft_eq]

theorem shift_or_bytes : (u >>> 8).toUInt8.toUInt16 <<< 8 ||| u.toUInt8.toUInt16 = u := by
  rw [← UInt16.toNat_inj, toNat_shift_or]
  have hu : u.toNat < 2 ^ 16 := u.toNat_lt
  have hhigh : (u >>> 8).toUInt8.toNat = u.toNat / 256 % 256 := by
    rw [UInt16.toNat_toUInt8, UInt16.toNat_shiftRight]
    exact congrArg (· % 256) (Nat.shiftRight_eq_div_pow u.toNat 8)
  rw [hhigh, UInt16.toNat_toUInt8]
  omega

theorem readUnits_bytes (rest : List UInt8) :
    readUnits order (order.bytes u ++ rest) =
      (u :: (readUnits order rest).1, (readUnits order rest).2) := by
  cases order with
  | little =>
    rw [Order.bytes, List.cons_append, List.singleton_append, readUnits, Order.unit, shift_or_bytes]
  | big =>
    rw [Order.bytes, List.cons_append, List.singleton_append, readUnits, Order.unit, shift_or_bytes]

theorem readUnits_flatMap (us : List UInt16) :
    readUnits order (us.flatMap order.bytes) = (us, false) := by
  induction us with
  | nil => rfl
  | cons u us ih => rw [List.flatMap_cons, readUnits_bytes, ih]

end Bytes

section Surrogates
variable {n : Nat}

theorem toNat_toUInt16 (h : n < 0x10000) : n.toUInt16.toNat = n := by
  rw [Nat.toUInt16, UInt16.toNat_ofNat']
  exact Nat.mod_eq_of_lt h

theorem isHigh_toUInt16 (h : n < 0x10000) :
    isHigh n.toUInt16 = decide (0xD800 ≤ n ∧ n ≤ 0xDBFF) := by
  rw [isHigh, Bool.decide_and]
  simp only [UInt16.le_iff_toNat_le, toNat_toUInt16 h]
  rfl

theorem isLow_toUInt16 (h : n < 0x10000) :
    isLow n.toUInt16 = decide (0xDC00 ≤ n ∧ n ≤ 0xDFFF) := by
  rw [isLow, Bool.decide_and]
  simp only [UInt16.le_iff_toNat_le, toNat_toUInt16 h]
  rfl

end Surrogates

theorem join_units (leftOver : Bool) (c : Char) (us : List UInt16) :
    join leftOver (units c ++ us) = some c :: join leftOver us := by
  have hvalid : c.toNat < 0xD800 ∨ 0xDFFF < c.toNat ∧ c.toNat < 0x110000 := c.valid
  have hvalue : Char.ofNat c.toNat = c := Char.ofNat_toNat c
  rw [units]
  generalize c.toNat = n at hvalid hvalue
  split
  · next hone =>
    have hhigh : isHigh n.toUInt16 = false := by
      rw [isHigh_toUInt16 hone]
      exact decide_eq_false (by omega)
    have hlow : isLow n.toUInt16 = false := by
      rw [isLow_toUInt16 hone]
      exact decide_eq_false (by omega)
    rw [List.singleton_append, join.eq_def]
    simp only [hhigh, hlow, Bool.false_eq_true, if_false, toNat_toUInt16 hone, hvalue]
  · next htwo =>
    have hfirst : 0xD800 + (n - 0x10000) / 0x400 < 0x10000 := by omega
    have hsecond : 0xDC00 + (n - 0x10000) % 0x400 < 0x10000 := by omega
    have hhigh : isHigh (0xD800 + (n - 0x10000) / 0x400).toUInt16 = true := by
      rw [isHigh_toUInt16 hfirst]
      exact decide_eq_true (by omega)
    have hlow : isLow (0xDC00 + (n - 0x10000) % 0x400).toUInt16 = true := by
      rw [isLow_toUInt16 hsecond]
      exact decide_eq_true (by omega)
    have hjoin : joinSurrogates (0xD800 + (n - 0x10000) / 0x400).toUInt16
        (0xDC00 + (n - 0x10000) % 0x400).toUInt16 = c := by
      rw [joinSurrogates, toNat_toUInt16 hfirst, toNat_toUInt16 hsecond, ← hvalue]
      refine congrArg Char.ofNat ?_
      omega
    rw [List.cons_append, List.singleton_append, join, hhigh, hlow, hjoin]
    rfl

theorem join_flatMap_units (cs : List Char) : join false (cs.flatMap units) = cs.map some := by
  induction cs with
  | nil => rfl
  | cons c cs ih =>
    rw [List.flatMap_cons, join_units, ih]
    rfl

theorem decode_encode (order : Order) (cs : List Char) : decode order (encode order cs) = cs.map some := by
  have hunits : encode order cs = (cs.flatMap units).flatMap order.bytes := by
    rw [encode, List.flatMap_assoc]
  rw [hunits, decode, readUnits_flatMap]
  exact join_flatMap_units cs

end OpposingKeys.Encoding.Utf16
