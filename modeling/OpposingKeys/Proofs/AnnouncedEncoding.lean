import OpposingKeys.Proofs.DivergingText
import OpposingKeys.Proofs.TableEncodings

/-!
# The announced encoding and the one used

A table file is announced to be in the encoding of its first mark, but a second mark right behind the first
decides how it is read. Whenever there is a second mark, the text comes out different from what the
announced encoding makes of the bytes: a U+FEFF is missing if the two marks are the same, and otherwise the
announced encoding is ahead by what it makes of the second mark.
-/

namespace OpposingKeys

set_option autoImplicit false

namespace Encoding

/-- What an encoding makes of bytes, marks included. -/
def text (encoding : Encoding) (bytes : List UInt8) : List Char := lenient (encoding.decode bytes)

/-- A mark that is not taken off is a U+FEFF. -/
theorem decode_mark (encoding : Encoding) (bytes : List UInt8) :
    encoding.decode (encoding.mark ++ bytes) = some '\uFEFF' :: encoding.decode bytes := by
  cases encoding with
  | utf8 => rfl
  | utf16le => exact Utf16.decode_of_plain (by decide)
  | utf16be => exact Utf16.decode_of_plain (by decide)

/-- No encoding makes of a marked file what the mark stands for makes of the rest. -/
theorem text_of_mark_ne (first second : Encoding) (body : List UInt8) :
    first.text (second.mark ++ body) ≠ second.text body := by
  by_cases hsame : first = second
  · subst hsame
    intro h
    have hlength := congrArg List.length h
    rw [text, text, decode_mark, lenient_some, List.length_cons] at hlength
    omega
  have hlight : ∀ c ∈ ['\uFFFD', '\uFFFD'], Utf8.Light c := by
    simp [Utf8.Light]
  have hheavy : ∀ b ∈ utf8.mark, Utf8.Heavy b := by
    simp [mark, Utf8.Heavy]
  cases first with
  | utf8 =>
    cases second with
    | utf8 => exact absurd rfl hsame
    | utf16le => exact fun h => Utf8.not_agrees .little none _ body ⟨Utf8.short_none, hlight, Nat.le_refl 2, h⟩
    | utf16be => exact fun h => Utf8.not_agrees .big none _ body ⟨Utf8.open_none, hlight, Nat.le_refl 2, h⟩
  | utf16le =>
    cases second with
    | utf8 => exact Utf8.heavy_ahead_ne .little hheavy (by decide) body
    | utf16le => exact absurd rfl hsame
    | utf16be =>
      intro h
      rw [text, decode, mark, List.cons_append, List.cons_append, Utf16.decode_of_plain (by decide)] at h
      exact Utf16.other_order_ne .little .big (by decide) (by decide) body h.symm
  | utf16be =>
    cases second with
    | utf8 => exact Utf8.heavy_ahead_ne .big hheavy (by decide) body
    | utf16le =>
      intro h
      rw [text, decode, mark, List.cons_append, List.cons_append, Utf16.decode_of_plain (by decide)] at h
      exact Utf16.other_order_ne .big .little (by decide) (by decide) body h.symm
    | utf16be => exact absurd rfl hsame

end Encoding

/-- A file is announced to be in the encoding of its first mark. It is read in that encoding exactly when no
second mark stands behind the first, and otherwise as the second mark says. -/
theorem announced_encoding_used_iff (first : Encoding) (rest : List UInt8) :
    (TableBytes.of (first.mark ++ rest)).notices.head? = some (.decodedByMark first.name) ∧
      (NamedTable.decodeText (first.mark ++ rest) = first.text rest ↔
        ∀ second : Encoding, ¬ second.mark <+: rest) ∧
      ∀ (second : Encoding) (body : List UInt8), rest = second.mark ++ body →
        NamedTable.decodeText (first.mark ++ rest) = second.text body := by
  have hsecond (second : Encoding) (body : List UInt8) :
      NamedTable.decodeText (first.mark ++ (second.mark ++ body)) = second.text body := by
    rw [NamedTable.decodeText, TableBytes.of_two_marks]
    rfl
  refine ⟨?_, ⟨?_, ?_⟩, ?_⟩
  · cases hmark : Encoding.ofMark? rest with
    | none =>
      rw [TableBytes.of_one_mark hmark]
      rfl
    | some found =>
      obtain rfl := Encoding.ofMark?_eq_some_iff.mp hmark
      rw [TableBytes.of_two_marks]
      rfl
  · rintro hused second ⟨body, rfl⟩
    rw [hsecond] at hused
    exact Encoding.text_of_mark_ne first second body hused.symm
  · intro hnone
    rw [NamedTable.decodeText, TableBytes.of_one_mark (Encoding.ofMark?_eq_none_iff.mpr hnone)]
    rfl
  · rintro second body rfl
    exact hsecond second body

/-- Behind the mark of UTF-8 a file in UTF-16LE with its own mark, the text of which is one pair. -/
theorem announced_encoding_used_iff_two_marks :
    let body := Encoding.utf16le.encode "A -> D".toList
    let rest := Encoding.utf16le.mark ++ body
    rest = Encoding.utf16le.mark ++ body ∧
      NamedTable.decodeText (Encoding.utf8.mark ++ rest) = Encoding.utf16le.text body :=
  ⟨rfl, (announced_encoding_used_iff .utf8 _).2.2 .utf16le _ rfl⟩

/-- It is announced to be UTF-8 and read as UTF-16LE. -/
theorem announced_encoding_not_used :
    let rest := Encoding.utf16le.mark ++ Encoding.utf16le.encode "A -> D".toList
    (TableBytes.of (Encoding.utf8.mark ++ rest)).notices = [.decodedByMark "UTF-8"] ∧
      NamedTable.decodeText (Encoding.utf8.mark ++ rest) = "A -> D".toList ∧
      Encoding.utf8.text rest =
        "\uFFFD\uFFFDA\x00 \x00-\x00>\x00 \x00D\x00".toList ∧
      NamedTable.decodeText (Encoding.utf8.mark ++ rest) ≠ Encoding.utf8.text rest := by
  decide +kernel

end OpposingKeys
