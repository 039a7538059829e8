/-!
# Keys

A key is a 16-bit code. Three ranges of codes matter here: the basic keys, which a
keyboard reports one by one and which alone may cancel each other, the modifiers, and
the codes set aside for switching cancellation itself (those are in `OpposingKeys.Control`).
-/

namespace OpposingKeys

set_option autoImplicit false

@[ext]
structure Key where
  code : UInt16
deriving DecidableEq, Inhabited

namespace Key

/-- The code that stands for no key at all. -/
def no : Key := ⟨0⟩

instance : LT Key := ⟨fun a b => a.code < b.code⟩

instance (a b : Key) : Decidable (a < b) := inferInstanceAs (Decidable (a.code < b.code))

theorem lt_iff_code {a b : Key} : a < b ↔ a.code.toNat < b.code.toNat := by
  show a.code < b.code ↔ _
  exact UInt16.lt_iff_toNat_lt

theorem lt_irrefl (a : Key) : ¬ a < a := by
  simp [lt_iff_code]

theorem lt_trans {a b c : Key} (hab : a < b) (hbc : b < c) : a < c := by
  rw [lt_iff_code] at *
  omega

theorem lt_of_not_lt_of_ne {a b : Key} (h : ¬ a < b) (hne : a ≠ b) : b < a := by
  rw [lt_iff_code] at *
  have : a.code.toNat ≠ b.code.toNat := fun e => hne (Key.ext (UInt16.toNat_inj.mp e))
  omega

/-- The key with code `n`, if `n` fits in 16 bits. -/
def ofNat? (n : Nat) : Option Key := if n < UInt16.size then some ⟨n.toUInt16⟩ else none

theorem ofNat?_eq_some_iff {n : Nat} {k : Key} : ofNat? n = some k ↔ n = k.code.toNat := by
  have hk : k.code.toNat < UInt16.size := k.code.toNat_lt_size
  constructor
  · intro h
    simp only [ofNat?, Option.ite_none_right_eq_some, Option.some.injEq] at h
    obtain ⟨hn, rfl⟩ := h
    exact (Nat.mod_eq_of_lt hn).symm
  · rintro rfl
    rw [ofNat?, if_pos hk]
    exact congrArg (fun c => some (Key.mk c)) UInt16.ofNat_toNat

/-- Only a basic key may cancel another. -/
def isBasic (k : Key) : Bool := 0x04 ≤ k.code && k.code ≤ 0xA4

def isModifier (k : Key) : Bool := 0xE0 ≤ k.code && k.code ≤ 0xE7

theorem isBasic_iff {k : Key} : k.isBasic = true ↔ 0x04 ≤ k.code ∧ k.code ≤ 0xA4 := by
  simp [isBasic]

theorem ne_of_isBasic {a k : Key} (ha : a.isBasic = true) (hk : k.isBasic = false) : a ≠ k := by
  rintro rfl
  exact Bool.noConfusion (ha.symm.trans hk)

theorem isModifier_iff {k : Key} : k.isModifier = true ↔ 0xE0 ≤ k.code ∧ k.code ≤ 0xE7 := by
  simp [isModifier]

end Key

end OpposingKeys
