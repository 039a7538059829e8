import OpposingKeys.Json.Parser
import OpposingKeys.Proofs.KeyGrammar

/-!
# The strings and numbers of JSON

Which texts are a string or a number, and that each reader takes from the front of a text exactly such
a piece. A string ends with its quote. A number has no end of its own: it is read as far as it goes, so
it matters what comes next. Behind a value that is a blank, the end of an item or nothing (`Ends`).
-/

namespace OpposingKeys.Json

set_option autoImplicit false

/-- Nothing but what may stand between any two marks. -/
def Blanks (cs : List Char) : Prop := ∀ c ∈ cs, isBlank c = true

section Blanks
variable {blanks : List Char}

theorem blanks_nil : Blanks [] := fun _ hc => nomatch hc

theorem skipBlanks_append (h : Blanks blanks) (cs : List Char) :
    skipBlanks (blanks ++ cs) = skipBlanks cs :=
  List.dropWhile_append_of_pos h

theorem skipBlanks_cons {c : Char} (h : isBlank c = false) (cs : List Char) :
    skipBlanks (c :: cs) = c :: cs :=
  List.dropWhile_cons_of_neg (by simp [h])

theorem exists_blanks (cs : List Char) : ∃ blanks, Blanks blanks ∧ cs = blanks ++ skipBlanks cs :=
  ⟨cs.takeWhile isBlank, List.all_eq_true.mp List.all_takeWhile, List.takeWhile_append_dropWhile.symm⟩

theorem skipBlanks_skipBlanks (cs : List Char) : skipBlanks (skipBlanks cs) = skipBlanks cs := by
  obtain ⟨blanks, hblanks, hcs⟩ := exists_blanks cs
  have h := skipBlanks_append hblanks (skipBlanks cs)
  rw [← hcs] at h
  exact h.symm

theorem skipBlanks_eq_nil_iff {cs : List Char} : skipBlanks cs = [] ↔ Blanks cs := by
  constructor
  · intro h
    obtain ⟨blanks, hblanks, hcs⟩ := exists_blanks cs
    rw [h, List.append_nil] at hcs
    exact hcs ▸ hblanks
  · intro h
    have hskip := skipBlanks_append h []
    rw [List.append_nil] at hskip
    exact hskip

end Blanks

section Strings
variable {cs rest text : List Char} {elements : List Element}

/-- The letters that may stand behind a backslash, each with the character it is for. -/
def escapes : List (Char × Char) :=
  [('"', '"'), ('\\', '\\'), ('/', '/'), ('b', '\x08'), ('f', '\x0C'), ('n', '\n'), ('r', '\r'),
    ('t', '\t')]

theorem simpleEscape?_eq_some_iff {e c : Char} : simpleEscape? e = some c ↔ (e, c) ∈ escapes := by
  constructor
  · intro h
    unfold simpleEscape? at h
    split at h <;> cases h <;> decide
  · intro h
    simp only [escapes, List.mem_cons, List.not_mem_nil, Prod.mk.injEq, or_false] at h
    obtain ⟨rfl, rfl⟩ | ⟨rfl, rfl⟩ | ⟨rfl, rfl⟩ | ⟨rfl, rfl⟩ | ⟨rfl, rfl⟩ | ⟨rfl, rfl⟩ | ⟨rfl, rfl⟩ |
      ⟨rfl, rfl⟩ := h <;> rfl

/-- What stands between the quotes of a string. -/
inductive WritesElements : List Char → List Element → Prop where
  | nil : WritesElements [] []
  | plain {c : Char} {cs : List Char} {elements : List Element} (hquote : c ≠ '"') (hslash : c ≠ '\\')
      (hspace : ¬ c < ' ') (h : WritesElements cs elements) :
      WritesElements (c :: cs) (.scalar c :: elements)
  | letter {e c : Char} {cs : List Char} {elements : List Element} (hescape : (e, c) ∈ escapes)
      (h : WritesElements cs elements) : WritesElements ('\\' :: e :: cs) (.scalar c :: elements)
  | unit {digits : List Char} {n : Nat} {cs : List Char} {elements : List Element}
      (hlength : digits.length = 4) (hdigits : Text.WritesHex digits n)
      (h : WritesElements cs elements) :
      WritesElements ('\\' :: 'u' :: (digits ++ cs)) (.ofUnit n.toUInt16 :: elements)

def WritesString (text : List Char) (elements : List Element) : Prop :=
  ∃ body, WritesElements body elements ∧ text = '"' :: (body ++ ['"'])

/-- A character that stands for itself. -/
theorem readString?_cons {c : Char} (hquote : c ≠ '"') (hslash : c ≠ '\\') (hspace : ¬ c < ' ')
    (cs : List Char) :
    readString? (c :: cs) = (readString? cs).map fun read => (.scalar c :: read.1, read.2) := by
  rw [readString?.eq_def]
  split
  · next h => cases h
  · next h => exact absurd (List.cons.inj h).1 hquote
  · next h => exact absurd (List.cons.inj h).1 hslash
  · next h => exact absurd (List.cons.inj h).1 hslash
  · next h =>
    obtain ⟨rfl, rfl⟩ := List.cons.inj h
    simp [hslash, hspace]

theorem readString?_letter {e c : Char} (h : (e, c) ∈ escapes) (cs : List Char) :
    readString? ('\\' :: e :: cs) =
      (readString? cs).map fun read => (.scalar c :: read.1, read.2) := by
  have hescape := simpleEscape?_eq_some_iff.mpr h
  have hunit : e ≠ 'u' := by
    rintro rfl
    cases hescape
  rw [readString?.eq_def]
  split
  · next heq => cases heq
  · next heq => cases heq
  · next heq => exact absurd (List.cons.inj (List.cons.inj heq).2).1 hunit
  · next heq =>
    obtain ⟨rfl, rfl⟩ := List.cons.inj (List.cons.inj heq).2
    rw [hescape]
  · next hother heq =>
    obtain ⟨rfl, rfl⟩ := List.cons.inj heq
    exact absurd rfl (hother e cs rfl)

theorem readString?_unit {digits : List Char} {n : Nat} (hlength : digits.length = 4)
    (hdigits : Text.WritesHex digits n) (cs : List Char) :
    readString? ('\\' :: 'u' :: (digits ++ cs)) =
      (readString? cs).map fun read => (Element.ofUnit n.toUInt16 :: read.1, read.2) := by
  have hnumber := Text.hexNumber?_eq_some_iff.mpr hdigits
  match digits, hlength with
  | [a, b, c, d], _ =>
    simp only [List.cons_append, List.nil_append, readString?, hnumber]

theorem readString?_append (h : WritesElements text elements) (rest : List Char) :
    readString? (text ++ '"' :: rest) = some (elements, rest) := by
  induction h with
  | nil => rfl
  | plain hquote hslash hspace _ ih =>
    rw [List.cons_append, readString?_cons hquote hslash hspace, ih]
    rfl
  | letter hescape _ ih =>
    rw [List.cons_append, List.cons_append, readString?_letter hescape, ih]
    rfl
  | unit hlength hdigits _ ih =>
    rw [List.cons_append, List.cons_append, List.append_assoc, readString?_unit hlength hdigits, ih]
    rfl

theorem exists_of_readString? (h : readString? cs = some (elements, rest)) :
    ∃ body, WritesElements body elements ∧ cs = body ++ '"' :: rest := by
  fun_induction readString? cs generalizing elements rest with
  | case1 => cases h
  | case2 cs =>
    cases h
    exact ⟨[], .nil, rfl⟩
  | case3 a b c d cs n hn ih =>
    obtain ⟨⟨more, left⟩, hread, heq⟩ := Option.map_eq_some_iff.mp h
    cases heq
    obtain ⟨body, hbody, rfl⟩ := ih hread
    exact ⟨_, .unit rfl (Text.hexNumber?_eq_some_iff.mp hn) hbody, rfl⟩
  | case4 => cases h
  | case5 e cs _ c hc ih =>
    obtain ⟨⟨more, left⟩, hread, heq⟩ := Option.map_eq_some_iff.mp h
    cases heq
    obtain ⟨body, hbody, rfl⟩ := ih hread
    exact ⟨_, .letter (simpleEscape?_eq_some_iff.mp hc) hbody, rfl⟩
  | case6 => cases h
  | case7 => cases h
  | case8 c cs hquote _ _ hplain ih =>
    obtain ⟨⟨more, left⟩, hread, heq⟩ := Option.map_eq_some_iff.mp h
    cases heq
    obtain ⟨body, hbody, rfl⟩ := ih hread
    simp only [Bool.or_eq_true, beq_iff_eq, decide_eq_true_eq, not_or] at hplain
    exact ⟨_, .plain hquote hplain.1 hplain.2 hbody, rfl⟩

end Strings

/-- What may stand behind a value: nothing, a blank, or a mark that ends an item. -/
def Ends (rest : List Char) : Prop :=
  ∀ c ∈ rest.head?, isBlank c = true ∨ c = ',' ∨ c = ']' ∨ c = '\x7d'

theorem ends_nil : Ends [] := by
  intro c hc
  cases hc

theorem ends_cons {c : Char} (h : isBlank c = true ∨ c = ',' ∨ c = ']' ∨ c = '\x7d')
    (rest : List Char) : Ends (c :: rest) := by
  intro d hd
  obtain rfl : c = d := Option.some.inj hd
  exact h

theorem ends_append {blanks rest : List Char} (h : Blanks blanks) (hrest : Ends rest) :
    Ends (blanks ++ rest) := by
  cases blanks with
  | nil => exact hrest
  | cons c blanks => exact ends_cons (.inl (h c List.mem_cons_self)) _

section Digits
variable {c d : Char}

theorem ne_of_isDigit (hc : c.isDigit = true) (hd : d.isDigit = false) : c ≠ d := by
  rintro rfl
  exact Bool.noConfusion (hc.symm.trans hd)

theorem isBlank_of_isDigit (hc : c.isDigit = true) : isBlank c = false := by
  simp [isBlank, ne_of_isDigit hc]

end Digits

section Numbers
variable {cs rest digits integer fraction exponent spelling : List Char}

def IsDigits (cs : List Char) : Prop := cs ≠ [] ∧ ∀ c ∈ cs, c.isDigit = true

def IsInteger (cs : List Char) : Prop := cs = ['0'] ∨ IsDigits cs ∧ cs.head? ≠ some '0'

def IsFraction (cs : List Char) : Prop := cs = [] ∨ ∃ digits, IsDigits digits ∧ cs = '.' :: digits

def IsExponent (cs : List Char) : Prop :=
  cs = [] ∨ ∃ e sign digits, (e = 'e' ∨ e = 'E') ∧ (sign = [] ∨ sign = ['+'] ∨ sign = ['-']) ∧
    IsDigits digits ∧ cs = e :: (sign ++ digits)

def IsUnsigned (cs : List Char) : Prop :=
  ∃ integer fraction exponent, IsInteger integer ∧ IsFraction fraction ∧ IsExponent exponent ∧
    cs = integer ++ fraction ++ exponent

def IsNumber (cs : List Char) : Prop :=
  IsUnsigned cs ∨ ∃ unsigned, IsUnsigned unsigned ∧ cs = '-' :: unsigned

/-- What comes next is no digit and none of the characters given, so it does not go on with a number. -/
def Stops (part : List Char) (rest : List Char) : Prop :=
  ∀ c ∈ rest.head?, c.isDigit = false ∧ c ∉ part

theorem Ends.stops (h : Ends rest) : Stops ['.', 'e', 'E'] rest := by
  intro c hc
  obtain hblank | rfl | rfl | rfl := h c hc
  · simp only [isBlank, Bool.or_eq_true, beq_iff_eq] at hblank
    obtain ((rfl | rfl) | rfl) | rfl := hblank <;> decide
  · decide
  · decide
  · decide

theorem stops_cons {part : List Char} {c : Char} (hdigit : c.isDigit = false) (hpart : c ∉ part)
    (rest : List Char) : Stops part (c :: rest) := by
  intro d hd
  obtain rfl : c = d := Option.some.inj hd
  exact ⟨hdigit, hpart⟩

theorem Stops.mono {part part' : List Char} (h : Stops part' rest) (hsub : part ⊆ part') :
    Stops part rest :=
  fun c hc => ⟨(h c hc).1, fun hmem => (h c hc).2 (hsub hmem)⟩

theorem IsFraction.stops_append (h : IsFraction fraction) (hrest : Stops [] rest) :
    Stops [] (fraction ++ rest) := by
  obtain rfl | ⟨digits, _, rfl⟩ := h
  · exact hrest
  · exact stops_cons rfl List.not_mem_nil _

theorem IsExponent.stops_append (h : IsExponent exponent) (hrest : Stops ['.'] rest) :
    Stops ['.'] (exponent ++ rest) := by
  obtain rfl | ⟨e, sign, digits, rfl | rfl, _, _, rfl⟩ := h
  · exact hrest
  · exact stops_cons rfl (by decide) _
  · exact stops_cons rfl (by decide) _

theorem readDigits?_append {part : List Char} (h : IsDigits digits) (hrest : Stops part rest) :
    readDigits? (digits ++ rest) = some (digits, rest) := by
  obtain ⟨hne, hall⟩ := h
  have hnext : rest.takeWhile Char.isDigit = [] ∧ rest.dropWhile Char.isDigit = rest := by
    cases rest with
    | nil => exact ⟨rfl, rfl⟩
    | cons c rest => simp [(hrest c rfl).1]
  rw [readDigits?, List.takeWhile_append_of_pos hall, List.dropWhile_append_of_pos hall, hnext.1,
    hnext.2, List.append_nil]
  cases digits with
  | nil => exact absurd rfl hne
  | cons c digits => rfl

theorem isDigits_of_readDigits? (h : readDigits? cs = some (digits, rest)) :
    IsDigits digits ∧ cs = digits ++ rest := by
  rw [readDigits?] at h
  split at h
  · cases h
  · next hne =>
    cases h
    exact ⟨⟨hne, List.all_eq_true.mp List.all_takeWhile⟩, List.takeWhile_append_dropWhile.symm⟩

theorem isDigits_of_map_readDigits? (front : List Char)
    (h : (readDigits? cs).map (fun read => (front ++ read.1, read.2)) = some (spelling, rest)) :
    ∃ digits, IsDigits digits ∧ spelling = front ++ digits ∧ cs = digits ++ rest := by
  obtain ⟨⟨digits, left⟩, hread, heq⟩ := Option.map_eq_some_iff.mp h
  cases heq
  obtain ⟨hdigits, rfl⟩ := isDigits_of_readDigits? hread
  exact ⟨digits, hdigits, rfl, rfl⟩

theorem readInteger?_append (h : IsInteger integer) (hrest : Stops [] rest) :
    readInteger? (integer ++ rest) = some (integer, rest) := by
  obtain rfl | ⟨hdigits, hzero⟩ := h
  · rfl
  · rw [readInteger?.eq_def]
    split
    · next heq =>
      obtain ⟨c, integer, rfl⟩ := List.exists_cons_of_ne_nil hdigits.1
      exact absurd (congrArg some (List.cons.inj heq).1) hzero
    · exact readDigits?_append hdigits hrest

theorem isInteger_of_readInteger? (h : readInteger? cs = some (integer, rest)) :
    IsInteger integer ∧ cs = integer ++ rest := by
  rw [readInteger?.eq_def] at h
  split at h
  · cases h
    exact ⟨.inl rfl, rfl⟩
  · next hzero =>
    obtain ⟨hdigits, rfl⟩ := isDigits_of_readDigits? h
    refine ⟨.inr ⟨hdigits, ?_⟩, rfl⟩
    intro hhead
    obtain ⟨integer, rfl⟩ := List.head?_eq_some_iff.mp hhead
    exact hzero _ rfl

theorem readFraction?_append (h : IsFraction fraction) (hrest : Stops ['.'] rest) :
    readFraction? (fraction ++ rest) = some (fraction, rest) := by
  obtain rfl | ⟨digits, hdigits, rfl⟩ := h
  · rw [List.nil_append, readFraction?.eq_def]
    split
    · exact absurd List.mem_cons_self (hrest '.' rfl).2
    · rfl
  · rw [List.cons_append, readFraction?, readDigits?_append hdigits hrest]
    rfl

theorem isFraction_of_readFraction? (h : readFraction? cs = some (fraction, rest)) :
    IsFraction fraction ∧ cs = fraction ++ rest := by
  rw [readFraction?.eq_def] at h
  split at h
  · obtain ⟨digits, hdigits, rfl, rfl⟩ := isDigits_of_map_readDigits? ['.'] h
    exact ⟨.inr ⟨digits, hdigits, rfl⟩, rfl⟩
  · cases h
    exact ⟨.inl rfl, rfl⟩

/-- The digits of an exponent, behind its sign. -/
theorem readExponent?_sign {e : Char} (he : e = 'e' ∨ e = 'E') {sign : List Char}
    (hsign : sign = [] ∨ sign = ['+'] ∨ sign = ['-']) (hdigits : IsDigits digits)
    (hrest : Stops ['e', 'E'] rest) :
    readExponent? (e :: (sign ++ digits) ++ rest) = some (e :: (sign ++ digits), rest) := by
  have hmark : (e == 'e' || e == 'E') = true := by
    obtain rfl | rfl := he <;> rfl
  have hread := readDigits?_append hdigits hrest
  rw [List.cons_append, List.append_assoc, readExponent?.eq_def]
  simp only [hmark, if_true]
  obtain rfl | rfl | rfl := hsign
  · obtain ⟨c, digits, rfl⟩ := List.exists_cons_of_ne_nil hdigits.1
    have hc : c.isDigit = true := hdigits.2 c List.mem_cons_self
    split
    · next heq =>
      obtain rfl : c = '+' := (List.cons.inj heq).1
      cases hc
    · next heq =>
      obtain rfl : c = '-' := (List.cons.inj heq).1
      cases hc
    · rw [List.nil_append, hread]
      rfl
  · simp only [List.cons_append, List.nil_append, hread, Option.map_some]
  · simp only [List.cons_append, List.nil_append, hread, Option.map_some]

theorem readExponent?_append (h : IsExponent exponent) (hrest : Stops ['e', 'E'] rest) :
    readExponent? (exponent ++ rest) = some (exponent, rest) := by
  obtain rfl | ⟨e, sign, digits, he, hsign, hdigits, rfl⟩ := h
  · cases rest with
    | nil => rfl
    | cons c rest =>
      obtain ⟨-, hc⟩ := hrest c rfl
      have hmark : (c == 'e' || c == 'E') = false := by simpa using hc
      rw [List.nil_append, readExponent?.eq_def]
      simp only [hmark, Bool.false_eq_true, if_false]
  · exact readExponent?_sign he hsign hdigits hrest

theorem isExponent_of_readExponent? (h : readExponent? cs = some (exponent, rest)) :
    IsExponent exponent ∧ cs = exponent ++ rest := by
  rw [readExponent?.eq_def] at h
  split at h
  · next e cs =>
    split at h
    · next he =>
      have he : e = 'e' ∨ e = 'E' := by simpa using he
      split at h
      · obtain ⟨digits, hdigits, rfl, rfl⟩ := isDigits_of_map_readDigits? [e, '+'] h
        exact ⟨.inr ⟨e, ['+'], digits, he, .inr (.inl rfl), hdigits, rfl⟩, rfl⟩
      · obtain ⟨digits, hdigits, rfl, rfl⟩ := isDigits_of_map_readDigits? [e, '-'] h
        exact ⟨.inr ⟨e, ['-'], digits, he, .inr (.inr rfl), hdigits, rfl⟩, rfl⟩
      · obtain ⟨digits, hdigits, rfl, rfl⟩ := isDigits_of_map_readDigits? [e] h
        exact ⟨.inr ⟨e, [], digits, he, .inl rfl, hdigits, rfl⟩, rfl⟩
    · cases h
      exact ⟨.inl rfl, rfl⟩
  · cases h
    exact ⟨.inl rfl, rfl⟩

theorem readUnsigned?_append (h : IsUnsigned spelling) (hrest : Ends rest) :
    readUnsigned? (spelling ++ rest) = some (spelling, rest) := by
  obtain ⟨integer, fraction, exponent, hinteger, hfraction, hexponent, rfl⟩ := h
  have hend := hrest.stops
  have hbehind := hexponent.stops_append (hend.mono (by decide))
  have hread := readInteger?_append hinteger (hfraction.stops_append (hbehind.mono (by decide)))
  rw [List.append_assoc, List.append_assoc, readUnsigned?, hread]
  simp only [readFraction?_append hfraction hbehind,
    readExponent?_append hexponent (hend.mono (by decide)), Option.map_some, List.append_assoc]

theorem isUnsigned_of_readUnsigned? (h : readUnsigned? cs = some (spelling, rest)) :
    IsUnsigned spelling ∧ cs = spelling ++ rest := by
  rw [readUnsigned?] at h
  split at h
  · cases h
  · next integer cs hi =>
    split at h
    · cases h
    · next fraction cs hf =>
      obtain ⟨⟨exponent, left⟩, he, heq⟩ := Option.map_eq_some_iff.mp h
      cases heq
      obtain ⟨hinteger, rfl⟩ := isInteger_of_readInteger? hi
      obtain ⟨hfraction, rfl⟩ := isFraction_of_readFraction? hf
      obtain ⟨hexponent, rfl⟩ := isExponent_of_readExponent? he
      refine ⟨⟨integer, fraction, exponent, hinteger, hfraction, hexponent, rfl⟩, ?_⟩
      simp only [List.append_assoc]

theorem IsUnsigned.exists_digit (h : IsUnsigned spelling) :
    ∃ c cs, spelling = c :: cs ∧ c.isDigit = true := by
  obtain ⟨integer, fraction, exponent, rfl | ⟨⟨hne, hall⟩, _⟩, _, _, rfl⟩ := h
  · exact ⟨'0', fraction ++ exponent, rfl, rfl⟩
  · obtain ⟨c, integer, rfl⟩ := List.exists_cons_of_ne_nil hne
    exact ⟨c, integer ++ fraction ++ exponent, rfl, hall c List.mem_cons_self⟩

/-- A number starts with a minus or a digit. -/
theorem IsNumber.exists_cons (h : IsNumber spelling) :
    ∃ c cs, spelling = c :: cs ∧ (c = '-' ∨ c.isDigit = true) := by
  obtain h | ⟨unsigned, _, rfl⟩ := h
  · obtain ⟨c, cs, rfl, hc⟩ := h.exists_digit
    exact ⟨c, cs, rfl, .inr hc⟩
  · exact ⟨'-', unsigned, rfl, .inl rfl⟩

theorem readNumber?_append (h : IsNumber spelling) (hrest : Ends rest) :
    readNumber? (spelling ++ rest) = some (spelling, rest) := by
  obtain h | ⟨unsigned, h, rfl⟩ := h
  · rw [readNumber?.eq_def]
    split
    · next heq =>
      obtain ⟨c, cs, rfl, hc⟩ := h.exists_digit
      obtain rfl : c = '-' := (List.cons.inj heq).1
      cases hc
    · exact readUnsigned?_append h hrest
  · rw [List.cons_append, readNumber?, readUnsigned?_append h hrest]
    rfl

theorem isNumber_of_readNumber? (h : readNumber? cs = some (spelling, rest)) :
    IsNumber spelling ∧ cs = spelling ++ rest := by
  rw [readNumber?.eq_def] at h
  split at h
  · obtain ⟨⟨unsigned, left⟩, hread, heq⟩ := Option.map_eq_some_iff.mp h
    cases heq
    obtain ⟨hunsigned, rfl⟩ := isUnsigned_of_readUnsigned? hread
    exact ⟨.inr ⟨unsigned, hunsigned, rfl⟩, rfl⟩
  · obtain ⟨hunsigned, rfl⟩ := isUnsigned_of_readUnsigned? h
    exact ⟨.inl hunsigned, rfl⟩

end Numbers

end OpposingKeys.Json
