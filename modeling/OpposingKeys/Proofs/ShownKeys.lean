import OpposingKeys.KeySyntax

/-!
# Keys as they are shown

What is shown for a key is a name or a code, and both are read as that key again. No character in it
means anything to the layout of a table.
-/

namespace OpposingKeys.Key

set_option autoImplicit false

/-- Neither blank nor the start of an arrow or of a comment. -/
def isPlain (c : Char) : Bool := !Text.isBlank c && c != '<' && c != '-' && c != ';'

theorem isBlank_of_isPlain {c : Char} (h : isPlain c = true) : Text.isBlank c = false := by
  simp only [isPlain, Bool.and_eq_true, Bool.not_eq_true'] at h
  exact h.1.1.1

section Names
variable {entry : String × Key} {c : Char}

/-- No name is given to two keys. -/
theorem lookup_of_mem :
    ∀ entry ∈ names ++ aliases, (names ++ aliases).lookup entry.1 = some entry.2 := by
  decide +kernel

theorem names_are_plain :
    ∀ entry ∈ names ++ aliases, (entry.1.toList.all fun c => isPlain c && c.toUpper == c) = true := by
  decide +kernel

theorem plain_of_mem_name (h : entry ∈ names ++ aliases) (hc : c ∈ entry.1.toList) :
    isPlain c = true ∧ c.toUpper = c := by
  have hboth := List.all_eq_true.mp (names_are_plain entry h) c hc
  rwa [Bool.and_eq_true, beq_iff_eq] at hboth

theorem toList_canonical (name : String) :
    ("KC_" ++ name).toList = 'K' :: 'C' :: '_' :: name.toList := by
  rw [String.toList_append]
  rfl

theorem named?_canonical (h : entry ∈ names ++ aliases) :
    named? ("KC_" ++ entry.1).toList = some entry.2 := by
  have hupper : entry.1.toList.map Char.toUpper = entry.1.toList := by
    rw [List.map_congr_left fun c hc => (plain_of_mem_name h hc).2, List.map_id']
  have hstart : ('K' :: 'C' :: '_' :: entry.1.toList).map Char.toUpper =
      ['K', 'C', '_'] ++ entry.1.toList := by
    rw [List.map_cons, List.map_cons, List.map_cons, hupper]
    rfl
  rw [named?, toList_canonical, hstart, Text.after?_eq_some_iff.mpr rfl, Option.getD_some,
    String.ofList_toList]
  exact lookup_of_mem entry h

theorem denoted?_canonical (h : entry ∈ names ++ aliases) :
    denoted? ("KC_" ++ entry.1).toList = some entry.2 := by
  rw [← named?_canonical h, toList_canonical]
  rfl

theorem isPlain_of_mem_canonical (h : entry ∈ names ++ aliases)
    (hc : c ∈ ("KC_" ++ entry.1).toList) : isPlain c = true := by
  simp only [toList_canonical, List.mem_cons] at hc
  obtain rfl | rfl | rfl | hc := hc
  · rfl
  · rfl
  · rfl
  · exact (plain_of_mem_name h hc).1

end Names

section Codes
variable {d n : Nat} {c : Char}

theorem hexDigit_is_plain (h : d < 16) : isPlain (Text.hexDigit d) = true ∧ Text.hexDigit d ≠ '+' := by
  revert d
  decide

theorem mem_fourHexDigits (h : c ∈ Text.fourHexDigits n) : ∃ d < 16, c = Text.hexDigit d := by
  simp only [Text.fourHexDigits, List.mem_cons, List.not_mem_nil, or_false] at h
  obtain rfl | rfl | rfl | rfl := h <;> exact ⟨_, Nat.mod_lt _ (by decide), rfl⟩

theorem toList_code (n : Nat) :
    ("0x" ++ String.ofList (Text.fourHexDigits n)).toList = '0' :: 'x' :: Text.fourHexDigits n := by
  simp [String.toList_append, String.toList_ofList]

theorem dropPlus_fourHexDigits (n : Nat) :
    dropPlus (Text.fourHexDigits n) = Text.fourHexDigits n := by
  have hfirst := (hexDigit_is_plain (Nat.mod_lt (n / 4096) (by decide : 0 < 16))).2
  rw [dropPlus]
  intro rest hplus
  exact hfirst (List.cons.inj hplus).1

theorem denoted?_code (k : Key) :
    denoted? ("0x" ++ String.ofList (Text.fourHexDigits k.code.toNat)).toList = some k := by
  rw [toList_code, denoted?, ofHex?, dropPlus_fourHexDigits,
    Text.hexNumber?_fourHexDigits k.code.toNat_lt_size]
  exact ofNat?_eq_some_iff.mpr rfl

theorem isPlain_of_mem_code (hc : c ∈ ("0x" ++ String.ofList (Text.fourHexDigits n)).toList) :
    isPlain c = true := by
  simp only [toList_code, List.mem_cons] at hc
  obtain rfl | rfl | hc := hc
  · rfl
  · rfl
  · obtain ⟨d, hd, rfl⟩ := mem_fourHexDigits hc
    exact (hexDigit_is_plain hd).1

end Codes

section Display
variable {k : Key} {c : Char}

theorem display_cases (k : Key) :
    (∃ entry ∈ names, entry.2 = k ∧ k.display = "KC_" ++ entry.1) ∨
      k.display = "0x" ++ String.ofList (Text.fourHexDigits k.code.toNat) := by
  rw [display, name?]
  cases hfind : names.find? fun entry => entry.2 = k with
  | none => exact Or.inr rfl
  | some entry =>
    have hkey : entry.2 = k := by simpa using List.find?_some hfind
    exact Or.inl ⟨entry, List.mem_of_find?_eq_some hfind, hkey, rfl⟩

theorem isPlain_of_mem_display (h : c ∈ k.display.toList) : isPlain c = true := by
  obtain ⟨entry, hentry, _, hshown⟩ | hshown := k.display_cases
  · exact isPlain_of_mem_canonical (List.mem_append_left aliases hentry) (hshown ▸ h)
  · exact isPlain_of_mem_code (hshown ▸ h)

theorem parse?_display (k : Key) : parse? k.display.toList = some k := by
  rw [parse?, Text.trim_of_no_blank fun c hc => isBlank_of_isPlain (isPlain_of_mem_display hc)]
  obtain ⟨entry, hentry, rfl, hshown⟩ | hshown := k.display_cases
  · rw [hshown]
    exact denoted?_canonical (List.mem_append_left aliases hentry)
  · rw [hshown]
    exact denoted?_code k

end Display

end OpposingKeys.Key
