import Mathlib.Algebra.Group.Nat.Defs
import OpposingKeys.Encoding

/-!
# ASCII bytes in UTF-8

A byte below 0x80 stands for itself wherever it is, since every later byte of a sequence is at least
0x80. So it ends whatever sequence is open, and decoding starts anew at it, however broken the bytes
before it are. The other way round a line feed is decoded from its own byte only, since no longer
sequence comes to a value below 0x80.
-/

namespace OpposingKeys.Encoding.Utf8

set_option autoImplicit false

theorem eq_of_ofNat_eq_newline {n : Nat} (h : Char.ofNat n = '\n') : n = 10 := by
  obtain hvalue | hnull := toNat_ofNat_or n
  · rw [← hvalue, h]
    rfl
  · rw [h] at hnull
    exact absurd hnull (by decide)

namespace Pending

/-- The least value that the sequence can still come to. -/
def least (p : Pending) : Nat := (p.value * 0x40 + (p.low.toNat - 0x80)) * 0x40 ^ (p.owed - 1)

/-- The sequence takes no ASCII byte and does not come to an ASCII character. -/
structure BeyondAscii (p : Pending) : Prop where
  low : 0x80 ≤ p.low
  least : 0x80 ≤ p.least

theorem beyondAscii_of_value {value owed : Nat} (high : UInt8)
    (h : 0x80 ≤ value * 0x40 * 0x40 ^ (owed - 1)) : BeyondAscii ⟨value, owed, 0x80, high⟩ where
  low := UInt8.le_refl _
  least := by simpa [Pending.least] using h

end Pending

section Steps
variable {pending : Option Pending} {p : Pending} {b : UInt8}

theorem first_of_ascii (hb : b < 0x80) : first b = ([some (Char.ofNat b.toNat)], none) :=
  if_pos hb

theorem beyondAscii_of_first (h : (first b).2 = some p) : p.BeyondAscii := by
  unfold first at h
  split at h
  · cases h
  split at h
  · next hb =>
    have : 0xC2 ≤ b.toNat := UInt8.le_iff_toNat_le.mp hb.1
    exact Option.some.inj h ▸ Pending.beyondAscii_of_value _ (by omega)
  split at h
  · exact Option.some.inj h ▸ ⟨by decide, by decide⟩
  split at h
  · exact Option.some.inj h ▸ ⟨by decide, by decide⟩
  split at h
  · next hb =>
    have : 0xE1 ≤ b.toNat := UInt8.le_iff_toNat_le.mp hb.1
    exact Option.some.inj h ▸ Pending.beyondAscii_of_value _ (by omega)
  split at h
  · exact Option.some.inj h ▸ ⟨by decide, by decide⟩
  split at h
  · next hb =>
    have : 0xF1 ≤ b.toNat := UInt8.le_iff_toNat_le.mp hb.1
    exact Option.some.inj h ▸ Pending.beyondAscii_of_value _ (by omega)
  split at h
  · exact Option.some.inj h ▸ ⟨by decide, by decide⟩
  · cases h

theorem eq_newline_of_first (h : some '\n' ∈ (first b).1) : b = 0x0A := by
  by_cases hb : b < 0x80
  · rw [first_of_ascii hb] at h
    have hvalue := eq_of_ofNat_eq_newline (Option.some.inj (List.mem_singleton.mp h)).symm
    exact UInt8.toNat_inj.mp hvalue
  · -- no other byte gives a character of its own
    simp only [first, if_neg hb] at h
    repeat' split at h
    all_goals simp at h

/-- One more byte that fits does not bring the value below what was to be expected. -/
theorem least_le (hlow : p.low ≤ b) :
    p.least ≤ (p.value * 0x40 + (b.toNat - 0x80)) * 0x40 ^ (p.owed - 1) := by
  have : p.low.toNat ≤ b.toNat := UInt8.le_iff_toNat_le.mp hlow
  exact Nat.mul_le_mul_right _ (by omega)

theorem beyondAscii_of_step (hp : ∀ q ∈ pending, q.BeyondAscii) (h : (step pending b).2 = some p) :
    p.BeyondAscii := by
  cases pending with
  | none => exact beyondAscii_of_first h
  | some q =>
    obtain ⟨_, hleast⟩ := hp q rfl
    simp only [step] at h
    split at h
    · next hfits =>
      split at h
      · cases h
      · next howed =>
        refine Option.some.inj h ▸ Pending.beyondAscii_of_value _ ?_
        have hpow : 0x40 ^ (q.owed - 1) = 0x40 * 0x40 ^ (q.owed - 1 - 1) := by
          rw [← Nat.pow_succ', Nat.succ_eq_add_one, Nat.sub_add_cancel (by omega)]
        rw [Nat.mul_assoc, ← hpow]
        exact Nat.le_trans hleast (least_le hfits.1)
    · exact beyondAscii_of_first h

theorem eq_newline_of_step (hp : ∀ q ∈ pending, q.BeyondAscii) (h : some '\n' ∈ (step pending b).1) :
    b = 0x0A := by
  cases pending with
  | none => exact eq_newline_of_first h
  | some q =>
    obtain ⟨_, hleast⟩ := hp q rfl
    simp only [step] at h
    split at h
    · next hfits =>
      split at h
      · next howed =>
        have hvalue := eq_of_ofNat_eq_newline (Option.some.inj (List.mem_singleton.mp h)).symm
        have hpow : q.owed - 1 = 0 := by omega
        have := least_le hfits.1
        rw [hpow, Nat.pow_zero, Nat.mul_one] at this
        omega
      · cases h
    · cases h with
      | tail _ h => exact eq_newline_of_first h

end Steps

section Decoding
variable {pending : Option Pending} {b : UInt8}

/-- An ASCII byte ends what is open, so the bytes before it and those from it on are decoded apart. -/
theorem decodeFrom_append_ascii (hp : ∀ q ∈ pending, q.BeyondAscii) (hb : b < 0x80)
    (front back : List UInt8) :
    decodeFrom pending (front ++ b :: back) = decodeFrom pending front ++ decode (b :: back) := by
  induction front generalizing pending with
  | nil =>
    cases pending with
    | none => rfl
    | some q =>
      have hout : ¬ (q.low ≤ b ∧ b ≤ q.high) := fun hfits =>
        UInt8.not_le.mpr hb (UInt8.le_trans (hp q rfl).low hfits.1)
      have hstep : step (some q) b = (none :: (first b).1, (first b).2) := if_neg hout
      show (step (some q) b).1 ++ decodeFrom (step (some q) b).2 back = none :: decode (b :: back)
      rw [hstep]
      rfl
  | cons a front ih =>
    rw [List.cons_append, decodeFrom, ih fun q hq => beyondAscii_of_step hp hq, decodeFrom,
      List.append_assoc]

theorem newline_of_mem_decodeFrom (hp : ∀ q ∈ pending, q.BeyondAscii) {bytes : List UInt8}
    (h : some '\n' ∈ decodeFrom pending bytes) : 0x0A ∈ bytes := by
  induction bytes generalizing pending with
  | nil => cases pending <;> simp [decodeFrom] at h
  | cons a bytes ih =>
    rw [decodeFrom] at h
    obtain h | h := List.mem_append.mp h
    · rw [eq_newline_of_step hp h]
      exact List.mem_cons_self
    · exact List.mem_cons_of_mem a (ih (fun q hq => beyondAscii_of_step hp hq) h)

theorem decode_append_ascii (hb : b < 0x80) (front back : List UInt8) :
    decode (front ++ b :: back) = decode front ++ some (Char.ofNat b.toNat) :: decode back := by
  rw [decode, decodeFrom_append_ascii (by simp) hb, decode, decode, decodeFrom, step,
    first_of_ascii hb]
  rfl

theorem lenient_decode_append_ascii (hb : b < 0x80) (front back : List UInt8) :
    lenient (decode (front ++ b :: back)) =
      lenient (decode front) ++ Char.ofNat b.toNat :: lenient (decode back) := by
  rw [decode_append_ascii hb, lenient_append, lenient_some]

theorem newline_of_mem_decode {bytes : List UInt8} (h : some '\n' ∈ decode bytes) : 0x0A ∈ bytes :=
  newline_of_mem_decodeFrom (by simp) h

end Decoding

end OpposingKeys.Encoding.Utf8
