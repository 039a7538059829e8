import OpposingKeys.Proofs.Utf16RoundTrip
import OpposingKeys.Proofs.Utf8RoundTrip

/-!
# Texts that never meet

Two decoders that read the same bytes, one of which is some characters ahead, never give the same text from
there on. Between the two byte orders the one ahead reads a U+FEFF where the other reads a U+FFFE. UTF-16 ahead
of UTF-8 gives characters that take three bytes there, so it comes to be further ahead with each of them. UTF-8
ahead of UTF-16 gives characters whose units hold a byte that goes on no sequence and starts none of three
bytes, so it stays ahead by as much.
-/

namespace OpposingKeys.Encoding

set_option autoImplicit false

namespace Utf16

/-- The byte of a unit that counts 256-fold. -/
def Order.high : Order → UInt8 → UInt8 → UInt8
  | little, _, b => b
  | big, a, _ => a

def Order.low : Order → UInt8 → UInt8 → UInt8
  | little, a, _ => a
  | big, _, b => b

section Pairs
variable {order : Order} {a b : UInt8} {rest : List UInt8} {c : Char} {cs : List Char}

theorem toNat_unit (order : Order) (a b : UInt8) :
    (order.unit a b).toNat = (order.high a b).toNat * 256 + (order.low a b).toNat := by
  cases order with
  | little => exact toNat_shift_or b a
  | big => exact toNat_shift_or a b

theorem decode_of_plain (h : (order.unit a b).toNat < 0xD800 ∨ 0xDFFF < (order.unit a b).toNat) :
    decode order (a :: b :: rest) =
      some (Char.ofNat (order.unit a b).toNat) :: decode order rest := by
  have hhigh : isHigh (order.unit a b) = false :=
    Bool.eq_false_iff.mpr fun hu => by have := isHigh_iff.mp hu; omega
  have hlow : isLow (order.unit a b) = false :=
    Bool.eq_false_iff.mpr fun hu => by have := isLow_iff.mp hu; omega
  rw [decode, readUnits, join.eq_def]
  simp only [hhigh, hlow, Bool.false_eq_true, if_false]
  rfl

/-- A unit that is a surrogate is malformed, unless it is taken together with the next one. -/
theorem decode_of_surrogate
    (h : 0xD800 ≤ (order.unit a b).toNat ∧ (order.unit a b).toNat ≤ 0xDFFF) :
    decode order (a :: b :: rest) = none :: decode order rest ∨
      decode order (a :: b :: rest) = [none] ∨
      ∃ c cs, decode order (a :: b :: rest) = some c :: cs ∧ 0x10000 ≤ c.toNat := by
  by_cases hhigh : isHigh (order.unit a b) = true
  · rcases rest with _ | ⟨x, _ | ⟨y, rest⟩⟩
    · refine Or.inl ?_
      simp [decode, readUnits, join, hhigh]
    · refine Or.inr (Or.inl ?_)
      simp [decode, readUnits, join, hhigh]
    · cases hlow : isLow (order.unit x y) with
      | true =>
        refine Or.inr (Or.inr ⟨_, decode order rest, ?_, le_toNat_joinSurrogates hhigh hlow⟩)
        simp only [decode, readUnits, join, hhigh, hlow, if_true]
      | false =>
        refine Or.inl ?_
        simp only [decode, readUnits, join, hhigh, hlow, if_true, Bool.false_eq_true, if_false]
  · have hlow : isLow (order.unit a b) = true := by
      rw [isHigh_iff] at hhigh
      exact isLow_iff.mpr (by omega)
    refine Or.inl ?_
    rw [decode, readUnits, join.eq_def]
    simp only [hhigh, hlow, if_true, Bool.false_eq_true, if_false]
    rfl

/-- The first two bytes of a text stand for its first character, and the rest for what follows it, unless
they are surrogates. -/
theorem cases_of_lenient_eq_cons (h : lenient (decode order (a :: b :: rest)) = c :: cs) :
    ((order.unit a b).toNat = c.toNat ∧ cs = lenient (decode order rest)) ∨
      ((0xD800 ≤ (order.unit a b).toNat ∧ (order.unit a b).toNat ≤ 0xDFFF) ∧ c = '\uFFFD' ∧
        (cs = lenient (decode order rest) ∨ cs = [])) ∨
      0x10000 ≤ c.toNat := by
  by_cases hplain : (order.unit a b).toNat < 0xD800 ∨ 0xDFFF < (order.unit a b).toNat
  · rw [decode_of_plain hplain, lenient_some] at h
    obtain ⟨rfl, rfl⟩ := List.cons.inj h
    have hunit := (order.unit a b).toNat_lt
    exact Or.inl ⟨(toNat_ofNat (by omega)).symm, rfl⟩
  · have hsurrogate : 0xD800 ≤ (order.unit a b).toNat ∧ (order.unit a b).toNat ≤ 0xDFFF := by omega
    obtain hnone | hnone | ⟨d, ds, hjoined, hbig⟩ := decode_of_surrogate hsurrogate
    · rw [hnone, lenient_none] at h
      obtain ⟨rfl, rfl⟩ := List.cons.inj h
      exact Or.inr (Or.inl ⟨hsurrogate, rfl, Or.inl rfl⟩)
    · rw [hnone, lenient_none] at h
      obtain ⟨rfl, rfl⟩ := List.cons.inj h
      exact Or.inr (Or.inl ⟨hsurrogate, rfl, Or.inr rfl⟩)
    · rw [hjoined, lenient_some] at h
      obtain ⟨rfl, -⟩ := List.cons.inj h
      exact Or.inr (Or.inr hbig)

/-- A character that is one unit and stands for nothing malformed comes from the two bytes of it. -/
theorem exists_of_lenient_eq_cons {bytes : List UInt8} (hc : c ≠ '\uFFFD') (hsmall : c.toNat < 0x10000)
    (h : lenient (decode order bytes) = c :: cs) :
    ∃ a b rest, bytes = a :: b :: rest ∧ (order.unit a b).toNat = c.toNat ∧
      cs = lenient (decode order rest) := by
  rcases bytes with _ | ⟨a, _ | ⟨b, rest⟩⟩
  · exact absurd h (List.cons_ne_nil _ _).symm
  · exact absurd (List.cons.inj h).1.symm hc
  · obtain hplain | ⟨-, hnone, -⟩ | hbig := cases_of_lenient_eq_cons h
    · exact ⟨a, b, rest, rfl, hplain⟩
    · exact absurd hnone hc
    · omega

end Pairs

/-- The two byte orders never come together once one of them is a U+FEFF or U+FFFE ahead: the other then
reads the opposite of the two next. -/
theorem other_order_ne (x y : Order) (hne : x ≠ y) {c : Char} (hc : c.toNat = 0xFEFF ∨ c.toNat = 0xFFFE)
    (body : List UInt8) : lenient (decode y body) ≠ c :: lenient (decode x body) := by
  intro h
  have hnot : c ≠ '\uFFFD' := by
    rintro rfl
    exact absurd hc (by decide)
  obtain ⟨a, b, rest, rfl, hunit, hrest⟩ := exists_of_lenient_eq_cons hnot (by omega) h
  have hswapped : (x.unit a b).toNat = 0xFEFF ∨ (x.unit a b).toNat = 0xFFFE := by
    have hx := toNat_unit x a b
    have hy := toNat_unit y a b
    have ha := a.toNat_lt
    have hb := b.toNat_lt
    cases x <;> cases y <;> simp only [Order.high, Order.low, ne_eq, not_true_eq_false] at hne hx hy <;>
      omega
  rw [decode_of_plain (by omega), lenient_some] at hrest
  exact other_order_ne x y hne (by rw [toNat_ofNat (by omega)]; exact hswapped) rest hrest.symm
termination_by body.length
decreasing_by all_goals (subst_vars; simp only [List.length_cons]; omega)

end Utf16

namespace Utf8

/-- Only the bytes from 0x80 to 0xBF may go on a sequence. -/
def Pending.Within (p : Pending) : Prop := 0x80 ≤ p.low.toNat ∧ p.high.toNat ≤ 0xBF

/-- What a byte is where no sequence is open. -/
inductive FirstByte (b : UInt8) : Prop where
  | ascii (hb : b.toNat < 0x80) (h : first b = ([some (Char.ofNat b.toNat)], none))
  | two (p : Pending) (h : first b = ([], some p)) (howed : p.owed = 1) (hvalue : p.value < 0x20)
      (hwithin : p.Within)
  | three (p : Pending) (h : first b = ([], some p)) (hb : 0xE0 ≤ b.toNat ∧ b.toNat ≤ 0xEF)
      (howed : p.owed = 2) (hwithin : p.Within)
  | four (p : Pending) (h : first b = ([], some p)) (hb : 0xF0 ≤ b.toNat ∧ b.toNat ≤ 0xF4)
      (howed : p.owed = 3) (hleast : 0x10 ≤ p.value * 0x40 + (p.low.toNat - 0x80)) (hwithin : p.Within)
  | broken (h : first b = ([none], none))

theorem firstByte (b : UInt8) : FirstByte b := by
  by_cases h1 : b < 0x80
  · exact .ascii (UInt8.lt_iff_toNat_lt.mp h1) (if_pos h1)
  by_cases h2 : 0xC2 ≤ b ∧ b ≤ 0xDF
  · have hb : b.toNat ≤ 0xDF := UInt8.le_iff_toNat_le.mp h2.2
    refine .two _ (by rw [first, if_neg h1, if_pos h2]) rfl ?_ ⟨Nat.le_refl _, Nat.le_refl _⟩
    dsimp only
    omega
  by_cases h3 : b = 0xE0
  · subst h3
    exact .three _ rfl ⟨by decide, by decide⟩ rfl ⟨by decide, by decide⟩
  by_cases h4 : b = 0xED
  · subst h4
    exact .three _ rfl ⟨by decide, by decide⟩ rfl ⟨by decide, by decide⟩
  by_cases h5 : 0xE1 ≤ b ∧ b ≤ 0xEF
  · have hlow : 0xE1 ≤ b.toNat := UInt8.le_iff_toNat_le.mp h5.1
    refine .three _ (by rw [first, if_neg h1, if_neg h2, if_neg h3, if_neg h4, if_pos h5])
      ⟨by omega, UInt8.le_iff_toNat_le.mp h5.2⟩ rfl ⟨Nat.le_refl _, Nat.le_refl _⟩
  by_cases h6 : b = 0xF0
  · subst h6
    exact .four _ rfl ⟨by decide, by decide⟩ rfl (by decide) ⟨by decide, by decide⟩
  by_cases h7 : 0xF1 ≤ b ∧ b ≤ 0xF3
  · have hlow : 0xF1 ≤ b.toNat := UInt8.le_iff_toNat_le.mp h7.1
    have hhigh : b.toNat ≤ 0xF3 := UInt8.le_iff_toNat_le.mp h7.2
    refine .four _ (by rw [first, if_neg h1, if_neg h2, if_neg h3, if_neg h4, if_neg h5, if_neg h6,
      if_pos h7]) ⟨by omega, by omega⟩ rfl ?_ ⟨Nat.le_refl _, Nat.le_refl _⟩
    dsimp only
    omega
  by_cases h8 : b = 0xF4
  · subst h8
    exact .four _ rfl ⟨by decide, by decide⟩ rfl (by decide) ⟨by decide, by decide⟩
  · refine .broken ?_
    rw [first, if_neg h1, if_neg h2, if_neg h3, if_neg h4, if_neg h5, if_neg h6, if_neg h7, if_neg h8]

section Sequences
variable {p : Pending} {b : UInt8} {bs : List UInt8} {c : Char} {cs : List Char}

theorem decodeFrom_of_misfit (h : ¬ (p.low ≤ b ∧ b ≤ p.high)) :
    decodeFrom (some p) (b :: bs) = none :: decodeFrom none (b :: bs) := by
  have hstep : step (some p) b = (none :: (first b).1, (first b).2) := if_neg h
  rw [decodeFrom, hstep]
  rfl

/-- A character other than U+FFFD behind an open sequence is the one of that sequence. -/
theorem exists_of_pending (hc : c ≠ '\uFFFD') (h : lenient (decodeFrom (some p) bs) = c :: cs) :
    ∃ b rest, bs = b :: rest ∧ p.low ≤ b ∧ b ≤ p.high ∧
      if p.owed ≤ 1 then
        c = Char.ofNat (p.value * 0x40 + (b.toNat - 0x80)) ∧ cs = lenient (decodeFrom none rest)
      else lenient (decodeFrom (some ⟨p.value * 0x40 + (b.toNat - 0x80), p.owed - 1, 0x80, 0xBF⟩) rest) =
        c :: cs := by
  rcases bs with _ | ⟨b, rest⟩
  · exact absurd (List.cons.inj h).1.symm hc
  · by_cases hfits : p.low ≤ b ∧ b ≤ p.high
    · refine ⟨b, rest, rfl, hfits.1, hfits.2, ?_⟩
      rw [decodeFrom, step, if_pos hfits] at h
      dsimp only at h
      split
      · next howed =>
        rw [if_pos howed, List.singleton_append, lenient_some] at h
        obtain ⟨rfl, rfl⟩ := List.cons.inj h
        exact ⟨rfl, rfl⟩
      · next howed =>
        rwa [if_neg howed] at h
    · rw [decodeFrom_of_misfit hfits, lenient_none] at h
      exact absurd (List.cons.inj h).1.symm hc

/-- The bytes of characters from U+0800 to U+FFFF. -/
def Heavy (b : UInt8) : Prop := 0x80 ≤ b.toNat ∧ b.toNat ≤ 0xBF ∨ 0xE0 ≤ b.toNat ∧ b.toNat ≤ 0xEF

theorem exists_of_lenient_eq_cons {bytes : List UInt8} (hc : c ≠ '\uFFFD') (hlow : 0x800 ≤ c.toNat)
    (hhigh : c.toNat < 0x10000) (h : lenient (decodeFrom none bytes) = c :: cs) :
    ∃ b1 b2 b3 rest, bytes = b1 :: b2 :: b3 :: rest ∧ (Heavy b1 ∧ Heavy b2 ∧ Heavy b3) ∧
      cs = lenient (decodeFrom none rest) := by
  rcases bytes with _ | ⟨b1, bytes⟩
  · exact absurd h (List.cons_ne_nil _ _).symm
  rw [decodeFrom, step] at h
  cases firstByte b1 with
  | ascii hb hfirst =>
    rw [hfirst, List.singleton_append, lenient_some] at h
    obtain rfl := (List.cons.inj h).1
    rw [toNat_ofNat (by omega)] at hlow
    omega
  | two p hfirst howed hvalue hwithin =>
    rw [hfirst, List.nil_append] at h
    obtain ⟨b2, rest, rfl, -, hb2, hlast⟩ := exists_of_pending hc h
    rw [if_pos (by omega)] at hlast
    have hb2 : b2.toNat ≤ p.high.toNat := UInt8.le_iff_toNat_le.mp hb2
    have hbound := hwithin.2
    rw [hlast.1, toNat_ofNat (by omega)] at hlow
    omega
  | three p hfirst hb howed hwithin =>
    rw [hfirst, List.nil_append] at h
    obtain ⟨b2, rest, rfl, hlow2, hhigh2, h⟩ := exists_of_pending hc h
    rw [if_neg (by omega)] at h
    obtain ⟨b3, rest, rfl, hlow3, hhigh3, h⟩ := exists_of_pending hc h
    rw [if_pos (by dsimp only; omega)] at h
    obtain ⟨hlowest, hhighest⟩ := hwithin
    rw [UInt8.le_iff_toNat_le] at hlow2 hhigh2 hlow3 hhigh3
    exact ⟨b1, b2, b3, rest, rfl,
      ⟨Or.inr hb, Or.inl ⟨by omega, by omega⟩, Or.inl ⟨hlow3, hhigh3⟩⟩, h.2⟩
  | four p hfirst hb howed hleast hwithin =>
    rw [hfirst, List.nil_append] at h
    obtain ⟨b2, rest, rfl, hlow2, -, h⟩ := exists_of_pending hc h
    rw [if_neg (by omega)] at h
    obtain ⟨b3, rest, rfl, -, -, h⟩ := exists_of_pending hc h
    rw [if_neg (by dsimp only; omega)] at h
    obtain ⟨b4, rest, rfl, -, -, h⟩ := exists_of_pending hc h
    rw [if_pos (by dsimp only; omega)] at h
    -- four bytes give no character that is this small
    rw [UInt8.le_iff_toNat_le] at hlow2
    obtain hvalue | hvalue := toNat_ofNat_or (((p.value * 0x40 + (b2.toNat - 0x80)) * 0x40 +
      (b3.toNat - 0x80)) * 0x40 + (b4.toNat - 0x80))
    · rw [← h.1] at hvalue
      omega
    · rw [← h.1] at hvalue
      omega
  | broken hfirst =>
    rw [hfirst, List.singleton_append, lenient_none] at h
    exact absurd (List.cons.inj h).1.symm hc

theorem toNat_unit_of_heavy (order : Utf16.Order) {a b : UInt8} (ha : Heavy a) (hb : Heavy b) :
    0x8000 ≤ (order.unit a b).toNat ∧ (order.unit a b).toNat < 0xFFFD ∧
      ((order.unit a b).toNat < 0xD800 ∨ 0xDFFF < (order.unit a b).toNat) := by
  have hunit := Utf16.toNat_unit order a b
  have hlow := (order.low a b).toNat_lt
  have hhigh : Heavy (order.high a b) := by cases order <;> assumption
  obtain hhigh | hhigh := hhigh
  · exact ⟨by omega, by omega, Or.inl (by omega)⟩
  · exact ⟨by omega, by omega, Or.inr (by omega)⟩

/-- Bytes of such characters make up units that are written in such bytes again, and in more of them: what
UTF-16 has ahead of UTF-8 only grows. -/
theorem heavy_ahead_ne (order : Utf16.Order) {ahead : List UInt8} (hheavy : ∀ b ∈ ahead, Heavy b)
    (hlength : 2 ≤ ahead.length) (body : List UInt8) :
    lenient (Utf16.decode order (ahead ++ body)) ≠ lenient (decodeFrom none body) := by
  intro h
  rcases ahead with _ | ⟨a, _ | ⟨b, ahead⟩⟩
  · exact absurd hlength (by decide)
  · exact absurd hlength (Nat.not_succ_le_self 1)
  obtain ⟨ha, hrest⟩ := List.forall_mem_cons.mp hheavy
  obtain ⟨hb, hahead⟩ := List.forall_mem_cons.mp hrest
  obtain ⟨hleast, hmost, hplain⟩ := toNat_unit_of_heavy order ha hb
  have hvalue : (Char.ofNat (order.unit a b).toNat).toNat = (order.unit a b).toNat :=
    toNat_ofNat (by omega)
  rw [List.cons_append, List.cons_append, Utf16.decode_of_plain hplain, lenient_some] at h
  have hc : Char.ofNat (order.unit a b).toNat ≠ '\uFFFD' := by
    intro hc
    have : (Char.ofNat (order.unit a b).toNat).toNat = 0xFFFD := congrArg Char.toNat hc
    omega
  obtain ⟨b1, b2, b3, rest, rfl, ⟨h1, h2, h3⟩, hrest⟩ :=
    exists_of_lenient_eq_cons hc (by omega) (by omega) h.symm
  have hmore : ∀ b ∈ ahead ++ [b1, b2, b3], Heavy b := by
    intro b hb
    rcases List.mem_append.mp hb with hb | hb
    · exact hahead b hb
    · simp only [List.mem_cons, List.not_mem_nil, or_false] at hb
      obtain rfl | rfl | rfl := hb <;> assumption
  refine heavy_ahead_ne order hmore (by simp) rest ?_
  rw [List.append_assoc]
  exact hrest
termination_by body.length
decreasing_by all_goals (subst_vars; simp only [List.length_cons]; omega)

end Sequences

/-- A character that is no longer than two bytes in UTF-8, or one that may stand for something malformed. -/
def Light (c : Char) : Prop := c = '\uFFFD' ∨ c.toNat < 0x800

/-- The 256-fold byte of the unit of such a character, or of a surrogate. It goes on no sequence and starts
none of more than two bytes. -/
def Quiet (b : UInt8) : Prop := b.toNat < 8 ∨ 0xD8 ≤ b.toNat ∧ b.toNat ≤ 0xDF ∨ b.toNat = 0xFF

def Open (p : Option Pending) : Prop := ∀ q ∈ p, q.Within

/-- No sequence is open, or one of two bytes. -/
def Short (p : Option Pending) : Prop := ∀ q ∈ p, q.owed = 1 ∧ q.value < 0x20 ∧ q.Within

theorem Short.open {p : Option Pending} (h : Short p) : Open p := fun q hq => (h q hq).2.2

theorem short_none : Short none := by
  intro q hq
  cases hq

theorem open_none : Open none := short_none.open

/-- The characters that a step yields are light, and it loses none: an open sequence counts as one. -/
structure Yields (p : Option Pending) (s : Step) (gain : Nat) : Prop where
  light : ∀ c ∈ lenient s.1, Light c
  count : p.toList.length + gain ≤ s.1.length + s.2.toList.length

section Yield
variable {p : Option Pending} {b : UInt8}

theorem light_replacement : Light '\uFFFD' := Or.inl rfl

theorem light_of_mem_singleton {c : Option Char} (hc : Light (c.getD '\uFFFD')) :
    ∀ d ∈ lenient [c], Light d :=
  fun _ hd => List.mem_singleton.mp hd ▸ hc

theorem yields_first (b : UInt8) : Yields none (first b) 1 ∧ Open (first b).2 := by
  have hnil : ∀ d ∈ lenient [], Light d := fun _ h => absurd h List.not_mem_nil
  cases firstByte b with
  | ascii hb h =>
    rw [h]
    refine ⟨⟨light_of_mem_singleton (Or.inr ?_), Nat.le_refl _⟩, open_none⟩
    rw [Option.getD_some, toNat_ofNat (by omega)]
    omega
  | two p h _ _ hwithin =>
    rw [h]
    exact ⟨⟨hnil, Nat.le_refl _⟩, fun q hq => Option.some.inj hq ▸ hwithin⟩
  | three p h _ _ hwithin =>
    rw [h]
    exact ⟨⟨hnil, Nat.le_refl _⟩, fun q hq => Option.some.inj hq ▸ hwithin⟩
  | four p h _ _ _ hwithin =>
    rw [h]
    exact ⟨⟨hnil, Nat.le_refl _⟩, fun q hq => Option.some.inj hq ▸ hwithin⟩
  | broken h =>
    rw [h]
    exact ⟨⟨light_of_mem_singleton light_replacement, Nat.le_refl _⟩, open_none⟩

theorem short_first (hb : Quiet b) : Short (first b).2 := by
  cases firstByte b with
  | ascii _ h =>
    rw [h]
    exact short_none
  | two p h howed hvalue hwithin =>
    rw [h]
    exact fun q hq => Option.some.inj hq ▸ ⟨howed, hvalue, hwithin⟩
  | three p h hrange _ _ =>
    obtain hb | hb | hb := hb <;> omega
  | four p h hrange _ _ _ =>
    obtain hb | hb | hb := hb <;> omega
  | broken h =>
    rw [h]
    exact short_none

theorem yields_misfit {q : Pending} (h : ¬ (q.low ≤ b ∧ b ≤ q.high)) :
    Yields (some q) (step (some q) b) 1 ∧ (step (some q) b).2 = (first b).2 := by
  have hstep : step (some q) b = (none :: (first b).1, (first b).2) := if_neg h
  obtain ⟨⟨hlight, hcount⟩, -⟩ := yields_first b
  rw [hstep]
  refine ⟨⟨?_, ?_⟩, rfl⟩
  · rw [lenient_none]
    exact List.forall_mem_cons.mpr ⟨light_replacement, hlight⟩
  · simp only [Option.toList_none, List.length_nil, Option.toList_some, List.length_cons] at hcount ⊢
    omega

theorem yields_of_quiet (hp : Open p) (hb : Quiet b) :
    Yields p (step p b) 1 ∧ Short (step p b).2 := by
  cases p with
  | none => exact ⟨(yields_first b).1, short_first hb⟩
  | some q =>
    have hmisfit : ¬ (q.low ≤ b ∧ b ≤ q.high) := by
      rintro ⟨hlow, hhigh⟩
      obtain ⟨hlowest, hhighest⟩ := hp q rfl
      rw [UInt8.le_iff_toNat_le] at hlow hhigh
      obtain hb | hb | hb := hb <;> omega
    obtain ⟨hyields, hnext⟩ := yields_misfit hmisfit
    exact ⟨hyields, hnext ▸ short_first hb⟩

theorem yields_of_short (hp : Short p) (b : UInt8) : Yields p (step p b) 0 ∧ Open (step p b).2 := by
  cases p with
  | none =>
    obtain ⟨⟨hlight, hcount⟩, hopen⟩ := yields_first b
    exact ⟨⟨hlight, Nat.le_of_succ_le hcount⟩, hopen⟩
  | some q =>
    obtain ⟨howed, hvalue, hwithin⟩ := hp q rfl
    by_cases hfits : q.low ≤ b ∧ b ≤ q.high
    · have hstep : step (some q) b =
          ([some (Char.ofNat (q.value * 0x40 + (b.toNat - 0x80)))], none) := by
        rw [step, if_pos hfits, howed]
        rfl
      have hhigh : b.toNat ≤ q.high.toNat := UInt8.le_iff_toNat_le.mp hfits.2
      have hbound := hwithin.2
      rw [hstep]
      refine ⟨⟨light_of_mem_singleton (Or.inr ?_), Nat.le_refl _⟩, open_none⟩
      rw [Option.getD_some, toNat_ofNat (by omega)]
      omega
    · obtain ⟨⟨hlight, hcount⟩, hnext⟩ := yields_misfit hfits
      exact ⟨⟨hlight, Nat.le_of_succ_le hcount⟩, hnext ▸ (yields_first b).2⟩

/-- An open sequence comes to a character or to something malformed. -/
theorem toList_length_le_decodeFrom (p : Option Pending) (bs : List UInt8) :
    p.toList.length ≤ (decodeFrom p bs).length := by
  induction bs generalizing p with
  | nil => cases p <;> exact Nat.le_refl _
  | cons b bs ih =>
    have hstep : p.toList.length ≤ (step p b).1.length + (step p b).2.toList.length := by
      cases p with
      | none => exact Nat.zero_le _
      | some q =>
        by_cases hfits : q.low ≤ b ∧ b ≤ q.high
        · rw [step, if_pos hfits]
          dsimp only
          split <;> exact Nat.le_refl _
        · exact Nat.le_of_succ_le (yields_misfit hfits).1.count
    have hrest := ih (step p b).2
    rw [decodeFrom, List.length_append]
    omega

end Yield

section Light
variable {order : Utf16.Order} {p : Option Pending} {a b : UInt8}

theorem Yields.append {s s' : Step} {gain gain' : Nat} (h : Yields p s gain) (h' : Yields s.2 s' gain') :
    Yields p (s.1 ++ s'.1, s'.2) (gain + gain') := by
  obtain ⟨hlight, hcount⟩ := h
  obtain ⟨hlight', hcount'⟩ := h'
  constructor
  · intro c hc
    rw [lenient_append] at hc
    exact (List.mem_append.mp hc).elim (hlight c) (hlight' c)
  · rw [List.length_append]
    dsimp only
    omega

/-- What may be open where a unit begins. In little-endian order the quiet byte of the unit before was the
last one. -/
def Ready : Utf16.Order → Option Pending → Prop
  | .little, p => Short p
  | .big, p => Open p

theorem quiet_of_light {c : Char} (hc : Light c) (hunit : (order.unit a b).toNat = c.toNat) :
    Quiet (order.high a b) := by
  have hbytes := Utf16.toNat_unit order a b
  have hlow := (order.low a b).toNat_lt
  obtain rfl | hc := hc
  · have hvalue : '\uFFFD'.toNat = 0xFFFD := rfl
    exact Or.inr (Or.inr (by omega))
  · exact Or.inl (by omega)

theorem quiet_of_surrogate
    (h : 0xD800 ≤ (order.unit a b).toNat ∧ (order.unit a b).toNat ≤ 0xDFFF) :
    Quiet (order.high a b) := by
  have hbytes := Utf16.toNat_unit order a b
  have hlow := (order.low a b).toNat_lt
  exact Or.inr (Or.inl ⟨by omega, by omega⟩)

theorem yields_pair (hp : Ready order p) (hquiet : Quiet (order.high a b)) :
    ∃ s : Step, Yields p s 1 ∧ Ready order s.2 ∧
      ∀ bs, decodeFrom p (a :: b :: bs) = s.1 ++ decodeFrom s.2 bs := by
  have htwo (bs : List UInt8) : decodeFrom p (a :: b :: bs) =
      (step p a).1 ++ (step (step p a).2 b).1 ++ decodeFrom (step (step p a).2 b).2 bs := by
    rw [decodeFrom, decodeFrom, List.append_assoc]
  cases order with
  | little =>
    obtain ⟨hfirst, hopen⟩ := yields_of_short hp a
    obtain ⟨hsecond, hready⟩ := yields_of_quiet hopen hquiet
    exact ⟨_, hfirst.append hsecond, hready, htwo⟩
  | big =>
    obtain ⟨hfirst, hshort⟩ := yields_of_quiet hp hquiet
    obtain ⟨hsecond, hready⟩ := yields_of_short hshort b
    exact ⟨_, hfirst.append hsecond, hready, htwo⟩

/-- UTF-8 is `ahead` of UTF-16 by light characters and an open sequence, two at least, and the two agree
from there on. -/
structure Agrees (order : Utf16.Order) (p : Option Pending) (ahead : List Char) (body : List UInt8) :
    Prop where
  ready : Ready order p
  light : ∀ c ∈ ahead, Light c
  two : 2 ≤ ahead.length + p.toList.length
  same : ahead ++ lenient (decodeFrom p body) = lenient (Utf16.decode order body)

/-- Light characters make up units whose bytes give such characters again, and as many of them: what UTF-8
is ahead by never shrinks. -/
theorem Agrees.next {ahead : List Char} {body : List UInt8} (h : Agrees order p ahead body) :
    ∃ p' ahead' rest, rest.length < body.length ∧ Agrees order p' ahead' rest := by
  obtain ⟨hready, hlight, htwo, hsame⟩ := h
  have hlong : 2 ≤ (lenient (Utf16.decode order body)).length := by
    have := toList_length_le_decodeFrom p body
    rw [← hsame, List.length_append, length_lenient]
    omega
  rcases ahead with _ | ⟨c, ahead⟩
  · cases p with
    | none => exact absurd htwo (Nat.not_succ_le_zero 1)
    | some q => exact absurd htwo (Nat.not_succ_le_self 1)
  rcases body with _ | ⟨a, _ | ⟨b, rest⟩⟩
  · exact absurd hlong (Nat.not_succ_le_zero 1)
  · exact absurd hlong (Nat.not_succ_le_self 1)
  obtain ⟨hc, hahead⟩ := List.forall_mem_cons.mp hlight
  obtain ⟨hquiet, hrest⟩ : Quiet (order.high a b) ∧
      ahead ++ lenient (decodeFrom p (a :: b :: rest)) = lenient (Utf16.decode order rest) := by
    obtain ⟨hunit, hrest⟩ | ⟨hsurrogate, -, hrest | hnil⟩ | hbig :=
      Utf16.cases_of_lenient_eq_cons hsame.symm
    · exact ⟨quiet_of_light hc hunit, hrest⟩
    · exact ⟨quiet_of_surrogate hsurrogate, hrest⟩
    · have hempty : ahead ++ lenient (decodeFrom p (a :: b :: rest)) = [] := hnil
      rw [← hsame, List.cons_append, hempty] at hlong
      exact absurd hlong (Nat.not_succ_le_self 1)
    · obtain rfl | hc := hc
      · exact absurd hbig (by decide)
      · omega
  obtain ⟨s, ⟨hlights, hcount⟩, hready', hdecode⟩ := yields_pair hready hquiet
  rw [hdecode, lenient_append, ← List.append_assoc] at hrest
  refine ⟨s.2, ahead ++ lenient s.1, rest, ?_, hready', ?_, ?_, hrest⟩
  · exact Nat.lt_add_of_pos_right Nat.two_pos
  · intro d hd
    exact (List.mem_append.mp hd).elim (hahead d) (hlights d)
  · rw [List.length_append, length_lenient]
    rw [List.length_cons] at htwo
    omega

theorem not_agrees (order : Utf16.Order) (p : Option Pending) (ahead : List Char) (body : List UInt8) :
    ¬ Agrees order p ahead body := by
  induction hn : body.length using Nat.strongRecOn generalizing p ahead body with
  | _ n ih =>
    intro h
    obtain ⟨p', ahead', rest, hshorter, hnext⟩ := h.next
    exact ih rest.length (hn ▸ hshorter) p' ahead' rest rfl hnext

end Light

end Utf8

end OpposingKeys.Encoding
