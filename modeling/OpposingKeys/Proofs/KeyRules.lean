import OpposingKeys.Proofs.KeyGrammar
import OpposingKeys.Proofs.TableGrammar

/-!
# Rules between two keys

No key has a part of an arrow or a semicolon in its text. So two keys with an arrow between them are a
rule, whatever blanks stand beside the arrow and whatever comment comes behind.
-/

namespace OpposingKeys

set_option autoImplicit false

variable {rule left right tail : List Char} {arrow : Arrow} {a b : Key}

theorem Divided.eq_append (h : Divided rule arrow left right) : rule = left ++ arrow.mark ++ right := by
  cases h with
  | both hfirst => exact hfirst.1
  | onward _ hfirst => exact hfirst.1

/-- What stands between two keys is the arrow, for no key has a part of an arrow in it. -/
theorem divided_of_keys (hleft : Key.parse? left = some a) (hright : Key.parse? right = some b)
    (arrow : Arrow) : Divided (left ++ arrow.mark ++ right) arrow left right := by
  cases arrow with
  | both => exact .both (Text.firstAt_of_not_mem (Key.not_mem_of_parse? hleft rfl rfl) right)
  | onward =>
    have hless : '<' ∉ left ++ Arrow.onward.mark ++ right := by
      simp [Arrow.mark, Key.not_mem_of_parse? hleft (c := '<') rfl rfl,
        Key.not_mem_of_parse? hright (c := '<') rfl rfl]
    refine .onward ?_ (Text.firstAt_of_not_mem (Key.not_mem_of_parse? hleft rfl rfl) right)
    intro hboth
    exact hless (hboth.subset List.mem_cons_self)

theorem hasRule_of_code {code tail : List Char} (hcode : ';' ∉ code) (hblank : ¬ Text.Blank code)
    (htail : tail = [] ∨ ∃ comment, tail = ';' :: comment) : HasRule (code ++ tail) (Text.trim code) := by
  obtain rfl | ⟨comment, rfl⟩ := htail
  · rw [List.append_nil]
    exact .alone hcode hblank (Text.trims_trim code)
  · exact .commented comment hcode hblank (Text.trims_trim code)

theorem not_blank_of_arrow (left right : List Char) (arrow : Arrow) :
    ¬ Text.Blank (left ++ arrow.mark ++ right) := by
  intro hblank
  have hdash : '-' ∈ left ++ arrow.mark ++ right := by cases arrow <;> simp [Arrow.mark]
  exact Bool.noConfusion (hblank '-' hdash)

theorem trim_arrow (left right : List Char) (arrow : Arrow) :
    Text.trim (left ++ arrow.mark ++ right) =
      Text.trimLeft left ++ arrow.mark ++ Text.trimRight right := by
  obtain ⟨c, front, hfirst, hc⟩ : ∃ c front, arrow.mark = c :: front ∧ Text.isBlank c = false := by
    cases arrow <;> exact ⟨_, _, rfl, rfl⟩
  have hlast : ∃ back, arrow.mark = back ++ ['>'] := by
    cases arrow with
    | both => exact ⟨['<', '-'], rfl⟩
    | onward => exact ⟨['-'], rfl⟩
  obtain ⟨back, hlast⟩ := hlast
  have hstart : Text.trimLeft (left ++ arrow.mark ++ right) =
      Text.trimLeft left ++ arrow.mark ++ right := by
    rw [hfirst, List.append_assoc, List.cons_append, Text.trimLeft_append_cons hc, ← List.cons_append,
      List.append_assoc]
  have hend : Text.trimRight (Text.trimLeft left ++ arrow.mark ++ right) =
      Text.trimLeft left ++ arrow.mark ++ Text.trimRight right := by
    have hmark (rest : List Char) : Text.trimLeft left ++ arrow.mark ++ rest =
        (Text.trimLeft left ++ back) ++ '>' :: rest := by simp [hlast]
    rw [hmark, hmark, Text.trimRight_append_cons rfl]
  rw [Text.trim, hstart, hend]

/-- Two keys with an arrow between them. -/
theorem hasForm_of_keys (hleft : Key.parse? left = some a) (hright : Key.parse? right = some b)
    (arrow : Arrow) (htail : tail = [] ∨ ∃ comment, tail = ';' :: comment) :
    HasForm (left ++ arrow.mark ++ right ++ tail) (.rule arrow a b) := by
  have hcode : ';' ∉ left ++ arrow.mark ++ right := by
    have hmark : ';' ∉ arrow.mark := by cases arrow <;> decide
    simp [hmark, Key.not_mem_of_parse? hleft (c := ';') rfl rfl,
      Key.not_mem_of_parse? hright (c := ';') rfl rfl]
  have hrule := hasRule_of_code hcode (not_blank_of_arrow left right arrow) htail
  rw [trim_arrow] at hrule
  have hleft' : Key.parse? (Text.trimLeft left) = some a := (Key.parse?_trimLeft left).trans hleft
  have hright' : Key.parse? (Text.trimRight right) = some b :=
    (Key.parse?_trimRight right).trans hright
  exact .rule hrule (divided_of_keys hleft' hright' arrow) hleft' hright'

end OpposingKeys
