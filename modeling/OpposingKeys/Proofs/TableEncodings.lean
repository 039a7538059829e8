import OpposingKeys.FileSystem
import OpposingKeys.Proofs.Utf16RoundTrip
import OpposingKeys.Proofs.Utf8RoundTrip
import OpposingKeys.TableFile

/-!
# A table file in each of its encodings

A file is read back as the text that it was made from, as long as nothing behind its mark can be
taken for a second mark. The main statement is that the same text gives the same table, or the same
fault, in every form that a table file may have.
-/

namespace OpposingKeys

set_option autoImplicit false

namespace Encoding

theorem decode_encode (encoding : Encoding) (cs : List Char) :
    encoding.decode (encoding.encode cs) = cs.map some := by
  cases encoding with
  | utf8 => exact Utf8.decode_encode cs
  | utf16le => exact Utf16.decode_encode .little cs
  | utf16be => exact Utf16.decode_encode .big cs

section Marks
variable {bytes rest : List UInt8} {encoding : Encoding}

theorem ofMark?_eq_some_iff :
    ofMark? bytes = some (encoding, rest) ↔ bytes = encoding.mark ++ rest := by
  constructor
  · intro h
    rw [ofMark?.eq_def] at h
    split at h
    · cases h
      rfl
    · cases h
      rfl
    · cases h
      rfl
    · cases h
  · rintro rfl
    exact ofMark?_mark encoding rest

theorem ofMark?_eq_none_iff :
    ofMark? bytes = none ↔ ∀ encoding : Encoding, ¬ encoding.mark <+: bytes := by
  constructor
  · rintro h encoding ⟨rest, hrest⟩
    rw [ofMark?_eq_some_iff.mpr hrest.symm] at h
    cases h
  · intro h
    cases hmark : ofMark? bytes with
    | none => rfl
    | some found => exact absurd ⟨found.2, (ofMark?_eq_some_iff.mp hmark).symm⟩ (h found.1)

end Marks

end Encoding

namespace TableBytes
variable {first : Encoding} {rest : List UInt8}

theorem of_one_mark (h : Encoding.ofMark? rest = none) :
    of (first.mark ++ rest) = ⟨some first, first, rest⟩ := by
  simp only [of, Encoding.ofMark?_mark, h]

theorem of_two_marks (first second : Encoding) (body : List UInt8) :
    of (first.mark ++ (second.mark ++ body)) = ⟨some first, second, body⟩ := by
  simp only [of, Encoding.ofMark?_mark]

end TableBytes

/-- A table file is in UTF-8 without a mark, or in any encoding behind the mark of it. -/
inductive FileForm where
  | unmarked
  | marked (encoding : Encoding)
deriving DecidableEq

namespace FileForm

def encoding : FileForm → Encoding
  | unmarked => .utf8
  | marked encoding => encoding

def mark : FileForm → List UInt8
  | unmarked => []
  | marked encoding => encoding.mark

def bytes (form : FileForm) (text : List Char) : List UInt8 :=
  form.mark ++ form.encoding.encode text

variable {form : FileForm} {text : List Char}

theorem of_bytes (h : Encoding.ofMark? (form.encoding.encode text) = none) :
    (TableBytes.of (form.bytes text)).encoding = form.encoding ∧
      (TableBytes.of (form.bytes text)).body = form.encoding.encode text := by
  cases form with
  | unmarked =>
    have hnone : Encoding.ofMark? (bytes unmarked text) = none := h
    rw [TableBytes.of, hnone]
    exact ⟨rfl, rfl⟩
  | marked encoding =>
    have hread : TableBytes.of (bytes (marked encoding) text) =
        ⟨some encoding, encoding, encoding.encode text⟩ := TableBytes.of_one_mark h
    rw [hread]
    exact ⟨rfl, rfl⟩

theorem decodeText_bytes (h : Encoding.ofMark? (form.encoding.encode text) = none) :
    NamedTable.decodeText (form.bytes text) = text := by
  obtain ⟨hencoding, hbody⟩ := of_bytes h
  rw [NamedTable.decodeText_eq, TableBytes.decoded, hencoding, hbody, Encoding.decode_encode,
    Encoding.lenient_map_some]

end FileForm

/-- What a file says does not depend on its form, unless its text starts with a mark of its own. -/
theorem loads_from_every_form (form : FileForm) (text : List Char) (files : FileSystem) (path : Path)
    (hfile : files.find path = .ok (.file (form.bytes text)))
    (hstart : ∀ other : Encoding, ¬ other.mark <+: form.encoding.encode text) :
    NamedTable.load (files.read path) = (NamedTable.parse text).mapError .table := by
  have hread : files.read path = .ok (form.bytes text) := by rw [FileSystem.read, hfile]
  have htext := FileForm.decodeText_bytes (Encoding.ofMark?_eq_none_iff.mpr hstart)
  rw [hread, NamedTable.load, htext]
  cases NamedTable.parse text <;> rfl

/-- The name is written in surrogates, and what is wrong in the text is found in the file too. -/
theorem loads_from_every_form_with_surrogates :
    let text := "; 😀\nA -> D\n\uFFFDA ->".toList
    let form : FileForm := .marked .utf16le
    let files : FileSystem := ⟨[(⟨.above 0, ["keys"]⟩, .file (form.bytes text))]⟩
    files.find ⟨"keys"⟩ = .ok (.file (form.bytes text)) ∧
    (∀ other : Encoding, ¬ other.mark <+: form.encoding.encode text) ∧
    NamedTable.load (files.read ⟨"keys"⟩) = .error (.table ⟨3, .unknownKey "\uFFFDA"⟩) := by
  intro text form files
  have hfile : files.find ⟨"keys"⟩ = .ok (.file (form.bytes text)) := by rfl
  have hstart : ∀ other : Encoding, ¬ other.mark <+: form.encoding.encode text := by
    intro other
    cases other <;> decide
  refine ⟨hfile, hstart, ?_⟩
  rw [loads_from_every_form form text files ⟨"keys"⟩ hfile hstart]
  rfl

end OpposingKeys
